import UmlSchema.Json.Key
import UmlSchema.Json.Shape
import UmlSchema.Platform.Basic
import UmlSchema.Text.Digit

/-! Generation options, and the preferences of a host application that they come from.
A preference may be any JSON value; what counts for most is whether it is true. -/
namespace UmlSchema

variable [Platform]

inductive IndentFault where
  | noLength
  | noMemory
  deriving DecidableEq, Repr

def lengthBound : Nat := Nat.pow 2 63

def spaces (n : Nat) : Except IndentFault Text :=
  if lengthBound ≤ n then .error .noLength
  else if Platform.memoryBound ≤ n then .error .noMemory
  else .ok (List.replicate n (.scalar ' '))

structure Options where
  /-- Doc blocks, and warnings within the text. -/
  idlDoc : Bool := true
  indentSpaces : Nat := 4
  useTab : Bool := false
  /-- Traces decisions through the log. The text does not depend on it. -/
  debug : Bool := false
  templateDir : Option Text := none
  deriving DecidableEq, Repr

def Options.indentString (o : Options) : Except IndentFault Text :=
  if o.useTab then .ok [.scalar '\t'] else spaces o.indentSpaces

inductive OptionFault where
  | unknown (name : Text)
  | negativeIndent (indent : Json)
  /-- The indentation cannot be compared with zero. -/
  | noOrder (shape : Json.Shape)
  /-- The indentation is a number but not a whole one. -/
  | noCount (shape : Json.Shape)
  | indent (fault : IndentFault)
  | notANumber (t : Text)
  | tooManyDigits (count : Nat)
  | notNumeric (shape : Json.Shape)
  | nanIndent
  | infiniteIndent
  | noPath (shape : Json.Shape)

structure Preferences where
  idlDoc : Json := .bool true
  indentSpaces : Json := .int 4
  useTab : Json := .bool false
  debug : Json := .bool false
  templateDir : Json := .null

namespace Preferences

/-- A whole number from a preference: a number without its fraction, a truth value as 0 or 1, or a
written number. -/
def wholeNumber : Json → Except OptionFault Int
  | .bool b => .ok (if b then 1 else 0)
  | .int n => .ok n
  | .real x =>
    match x, x.truncate? with
    | _, some n => .ok n
    | .nan, none => .error .nanIndent
    | _, none => .error .infiniteIndent
  | .str t =>
    match t.toInt with
    | .ok n => .ok n
    | .error .noNumber => .error (.notANumber t)
    | .error (.tooManyDigits count) => .error (.tooManyDigits count)
  | j => .error (.notNumeric j.shape)

/-- An indentation has to be comparable with zero and not below it. -/
def checked (p : Preferences) : Except OptionFault Preferences :=
  match p.indentSpaces with
  | .bool _ => .ok p
  | .int n => if n < 0 then .error (.negativeIndent (.int n)) else .ok p
  | .real x => if x.isNegative then .error (.negativeIndent (.real x)) else .ok p
  | j => .error (.noOrder j.shape)

private def given? (members : Table Text Json) (name : String) : Option Json :=
  match members.get? name with
  | some .null => none
  | found => found

/-- Preferences under the names of a host application. Null means that a preference is not given;
names other than the five are ignored. -/
def ofHost (members : Table Text Json) : Except OptionFault Preferences := do
  let indentSpaces ← match given? members "indentSpaces" with
    | some j => wholeNumber j
    | none => .ok 4
  checked
    { idlDoc := (given? members "idlDoc").getD (.bool true)
      indentSpaces := .int indentSpaces
      useTab := (given? members "useTab").getD (.bool false)
      debug := (given? members "debug").getD (.bool false)
      templateDir := (given? members "templateDir").getD .null }

def names : List Text := ["idl_doc", "indent_spaces", "use_tab", "debug", "template_dir"]

def ofSettings (members : Table Text Json) : Except OptionFault Preferences := do
  if let some name := members.keys.find? fun n => !names.contains n then throw (.unknown name)
  checked
    { idlDoc := (members.get? "idl_doc").getD (.bool true)
      indentSpaces := (members.get? "indent_spaces").getD (.int 4)
      useTab := (members.get? "use_tab").getD (.bool false)
      debug := (members.get? "debug").getD (.bool false)
      templateDir := (members.get? "template_dir").getD .null }

/-- One level of indentation. Without tabs the number of spaces has to be a whole one. -/
def indentString (p : Preferences) : Except OptionFault Text :=
  if p.useTab.isTrue then .ok [.scalar '\t']
  else match p.indentSpaces with
    | .bool b => (spaces b.toNat).mapError .indent
    | .int n => (spaces n.toNat).mapError .indent
    | j => .error (.noCount j.shape)

def options (p : Preferences) : Options where
  idlDoc := p.idlDoc.isTrue
  indentSpaces := match p.indentSpaces with
    | .bool b => b.toNat
    | .int n => n.toNat
    | _ => 0
  useTab := p.useTab.isTrue
  debug := p.debug.isTrue
  templateDir := match p.templateDir with
    | .str t => if t.isEmpty then none else some t
    | _ => none

def generatorOptions (p : Preferences) : Except OptionFault Options :=
  match p.templateDir with
  | .str _ => .ok p.options
  | j => if j.isTrue then .error (.noPath j.shape) else .ok p.options

end Preferences

end UmlSchema
