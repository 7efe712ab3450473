import UmlSchema.Options
import UmlSchema.Schema.Doc
import UmlSchema.Schema.Lineage

/-! Declarations: enumerations, scalars, interfaces, objects, unions and the operations in them. -/
namespace UmlSchema

inductive ClassForm where
  | union
  | input
  | schema
  | type
  deriving DecidableEq, Repr

namespace ClassForm

def keyword : ClassForm → Text
  | union => "union"
  | input => "input"
  | schema => "schema"
  | type => "type"

def ofStereotype (stereotype : Text) : ClassForm :=
  let s := stereotype.trim
  if s = "union" then union
  else if s = "input" then input
  else if s = "schema" then schema
  else type

end ClassForm

/-- Where declarations come from and how they are written. -/
structure Declarer where
  repository : Repository
  options : Options := {}

namespace Declarer

variable [Platform]

def model (d : Declarer) : Model := d.repository.model

def element (d : Declarer) (e : ElementId) : Element := d.model.element e

def nameOf (d : Declarer) (e : ElementId) : Shown := d.model.shownName e

def namesOf (d : Declarer) (vs : List Value) : Except ModelFault (List Value) :=
  vs.mapM fun v => d.model.read v .name

/-- Names after a word; no names need no word. -/
def clause (d : Declarer) (word : Text) (names : List Value) : Except ModelFault Text := do
  if names.isEmpty then return [] else return word ++ (← d.model.joined ", " names)

def doc (d : Declarer) (t : Text) : Emission Unit := Emission.doc d.options.idlDoc t

/-- The doc block of a value; only a text has one. -/
def docOf (d : Declarer) : Value → Emission Unit
  | .text t => d.doc t
  | _ => pure ()

def warnInText (d : Declarer) (k : WarningKind) (message : Text) (e : ElementId) :
    Emission Unit := do
  Emission.warn k message (d.nameOf e)
  d.doc ("WARNING: " ++ message)

def checkName (d : Declarer) (e : ElementId) : Emission Unit :=
  let name := d.nameOf e
  match Platform.nameComplaint? name.value with
  | none => pure ()
  | some complaint =>
    Emission.warn .invalidName
      ("'" ++ name.text ++ "' is not a valid GraphQL name: " ++ complaint) name

def fields (d : Declarer) (table : FieldTable) : Emission Unit :=
  Emission.each table fun (name, field) => do
    d.docOf field.documentation
    let name ← d.model.prepended name
    Emission.line (name ++ field.text)

def parametersOf (d : Declarer) (operation : ElementId) : Except ModelFault (List Value) := do
  if (d.element operation).kind ≠ .operation then
    throw (.noOperation (.element (d.element operation).kind))
  d.model.members (← d.model.read (.ref operation) .parameters)

def isReturn (d : Declarer) (parameter : Value) : Except ModelFault Bool := do
  return (← d.model.read parameter .direction) = .text "return"

def inputParameters (d : Declarer) (operation : ElementId) :
    Except ModelFault (List ElementId) := do
  let inputs ← Repository.select (fun p => do return !(← d.isReturn p)) (← d.parametersOf operation)
  return inputs.filterMap Value.element?

def firstReturn (d : Declarer) : List Value → Except ModelFault (Option ElementId)
  | [] => .ok none
  | p :: ps => do if ← d.isReturn p then return p.element? else d.firstReturn ps

def returnParameter (d : Declarer) (operation : ElementId) :
    Except ModelFault (Option ElementId) := do
  d.firstReturn (← d.parametersOf operation)

def documented (d : Declarer) (word : Text) (e : ElementId) : Text :=
  let documentation := (d.element e).documentation
  if documentation.isTrue then word ++ (d.model.shownValue e .documentation documentation).text
  else []

def operationDoc (d : Declarer) (operation : ElementId) (inputs : List ElementId)
    (result : Option ElementId) : Except ModelFault Text := do
  let own ← d.model.textOrEmpty (d.element operation).documentation .trimming
  let ofInputs := inputs.flatMap fun p => d.documented ("\nparam: " ++ (d.nameOf p).text ++ " ") p
  let ofResult := result.toList.flatMap (d.documented "\nreturn: ")
  return own.trim ++ ofInputs ++ ofResult

def parameterTerm (d : Declarer) (p : ElementId) : Emission Text := do
  let type ← d.model.typeOf .collected p
  let default ← d.model.defaultClause (← d.model.read (.ref p) .defaultValue)
  return (d.nameOf p).text ++ ": " ++ type.text ++ default

def resultClause (d : Declarer) : Option ElementId → Emission Text
  | none => pure []
  | some p => do
    let type ← d.model.typeOf .collected p
    let type ← d.model.appended type.value
    return Text.ofString ": " ++ type

/-- One line with name, parameters, result type and directives, after the documentation of the
operation and its parameters. An operation without a name is left out. -/
def operation (d : Declarer) (v : Value) : Emission Unit := do
  let name ← d.model.shown v .name
  match v with
  | .ref e =>
    if !name.value.isTrue then return
    let inputs ← d.inputParameters e
    let result ← d.returnParameter e
    let documentation ← d.operationDoc e inputs result
    d.doc documentation
    let terms ← Emission.collect inputs d.parameterTerm
    let resultText ← d.resultClause result
    let directives ← d.model.directives e
    Emission.line (name.text ++ "(" ++ Text.joinWith ", " terms ++ ")" ++ resultText ++ directives)
  | _ => return

def operations (d : Declarer) (e : ElementId) : Emission Unit := do
  let operations ← d.model.members (← d.model.read (.ref e) .operations)
  Emission.each operations fun o => do
    d.operation o
    Emission.emptyLine

/-- A literal after its documentation as comments. One without a name leaves an empty line. -/
def literal (d : Declarer) (v : Value) : Emission Unit := do
  let documentation ← d.model.textOrEmpty (← d.model.read v .documentation) .splitting
  let comments := documentation.lines.filter (!·.isBlank)
  Emission.emitAll (comments.map fun c => .line ("#" ++ c))
  let name ← d.model.read v .name
  if name.isTrue then
    let name ← d.model.appended name
    Emission.line name
  else Emission.emptyLine

def enumeration (d : Declarer) (e : ElementId) : Emission Unit := do
  d.checkName e
  d.docOf (d.element e).documentation
  Emission.line ("enum " ++ (d.nameOf e).text ++ " \x7b")
  Emission.indent
  let literals ← d.model.members (← d.model.read (.ref e) .literals)
  Emission.each literals d.literal
  Emission.outdent
  Emission.line "\x7d"

def scalar (d : Declarer) (e : ElementId) : Emission Unit := do
  d.checkName e
  d.docOf (d.element e).documentation
  Emission.line ("scalar " ++ (d.nameOf e).text)

def block (d : Declarer) (header : Text) (table : Emission FieldTable) (e : ElementId) :
    Emission Unit := do
  Emission.line (header ++ " \x7b")
  Emission.emptyLine
  Emission.indent
  let table ← table
  d.fields table
  d.operations e
  Emission.outdent
  Emission.line "\x7d"

def interface (d : Declarer) (e : ElementId) : Emission Unit := do
  d.checkName e
  d.docOf (d.element e).documentation
  let parents ← d.repository.superClasses (.ref e)
  let names ← d.namesOf parents
  let extending ← d.clause " extends " names
  let title ← d.model.joined " " [.text "interface", (d.element e).name]
  d.block (title ++ extending) (d.repository.interfaceTable e) e

def isAbstract (d : Declarer) (v : Value) : Bool :=
  ((d.model.get? v .isAbstract).getD .absent).isTrue

/-- The nearest ancestor along first parents that is not abstract, and whether other parents were
passed over on the way. -/
def nearestConcrete (d : Declarer) : Nat → List Value → Bool → Value →
    Except ModelFault (Value × Bool)
  | 0, _, ignored, _ => .ok (.absent, ignored)
  | n + 1, seen, ignored, current => do
    match ← d.repository.superClasses current with
    | [] => return (.absent, ignored)
    | parent :: others =>
      let ignored := ignored || !others.isEmpty
      if !d.isAbstract parent then return (parent, ignored)
      else if parent ∈ seen then return (.absent, ignored)
      else d.nearestConcrete n (parent :: seen) ignored parent

/-- The class that a class extends. Parents other than the first are ignored with a warning. -/
def extendsTarget (d : Declarer) (e : ElementId) : Emission Value := do
  let (target, ignored) ← d.nearestConcrete (d.model.size + 2) [.ref e] false (.ref e)
  if ignored then
    d.warnInText .multipleInheritance "you can only extend one class, ignoring others" e
  return target

/-- What a type extends, or else what it implements. -/
def ancestry (d : Declarer) (e : ElementId) : Emission Text := do
  let interfaces ← d.repository.superInterfaces (.ref e)
  let names ← d.namesOf interfaces
  let parent ← d.extendsTarget e
  if parent = .absent then d.clause " implements " names
  else
    let name ← d.model.read parent .name
    d.clause " extends " (name :: names)

/-- An object under a keyword. Only a `type` names what it extends and implements, and a `schema`
has no name. -/
def object (d : Declarer) (keyword : Text) (e : ElementId) : Emission Unit := do
  if keyword ≠ "schema" then d.checkName e
  d.docOf (d.element e).documentation
  let ancestry ← if keyword = "type" then d.ancestry e else pure []
  let title : Text := if keyword = "schema" then keyword else keyword ++ " " ++ (d.nameOf e).text
  d.block (title ++ ancestry) (d.repository.classTable e) e

/-- A union of the classes that the class depends on. What else the class has is left out with a
warning, and a union without members is not written. -/
def union (d : Declarer) (e : ElementId) : Emission Unit := do
  d.checkName e
  let parents ← d.repository.superClasses (.ref e)
  if !parents.isEmpty then
    d.warnInText .unionInheritance
      "Inheritance on union types is not GraphQL compliant, ignoring" e
  let interfaces ← d.repository.superInterfaces (.ref e)
  if !interfaces.isEmpty then
    d.warnInText .unionRealization
      "Implementing interfaces of union types is not GraphQL compliant, ignoring" e
  let operations ← d.model.read (.ref e) .operations
  if operations.isTrue then
    d.warnInText .unionOperations
      "Operations on union types is not GraphQL compliant, ignoring." e
  let attributes ← d.model.read (.ref e) .attributes
  if attributes.isTrue then
    d.warnInText .unionAttributes
      "Attributes on union types is not GraphQL compliant, ignoring." e
  let members ← d.repository.dependencyTargets (.ref e)
  let name := (d.nameOf e).text
  if d.options.debug then
    Emission.debug .declarations (name ++ ": " ++ Text.ofNat members.length ++ " union members")
  if !members.isEmpty then
    d.docOf (d.element e).documentation
    let names ← d.namesOf members
    let alternatives ← d.model.joined " | " names
    Emission.line ("union " ++ name ++ " = " ++ alternatives)

def formOf (d : Declarer) (e : ElementId) : Except ModelFault ClassForm := do
  let stereotype ← d.model.textOrEmpty (← d.model.read (.ref e) .stereotype) .trimming
  return ClassForm.ofStereotype stereotype

def klass (d : Declarer) (e : ElementId) : Emission Unit := do
  match ← d.formOf e with
  | .union => d.union e
  | form => d.object form.keyword e

end Declarer

end UmlSchema
