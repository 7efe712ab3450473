import UmlSchema.Inflection.Noun
import UmlSchema.Schema.Directive
import UmlSchema.Schema.TypeExpr

/-! Fields of a declaration. A field table has each name once; a later write replaces an earlier one
in its place. -/
namespace UmlSchema

structure FieldLine where
  text : Text
  documentation : Value := .text []
  deriving DecidableEq, Repr

abbrev FieldWrite := Value × FieldLine

abbrev FieldTable := Table Value FieldLine

def lowerFirst : Text → Except ModelFault Text
  | [] => .error .emptyName
  | c :: cs => .ok (c.lower ++ cs)

def isSingle (multiplicity : Text) : Bool :=
  let m := multiplicity.trim
  m.isEmpty || m = "0" || m = "1" || m = "0..1"

/-- The name of a reference to a type: singular or plural, with a lower case first letter. -/
def inferredName (typeName multiplicity : Text) : Except ModelFault Text :=
  lowerFirst (if isSingle multiplicity then singularize typeName else pluralize typeName)

namespace Model

variable [Platform]

def nameIfAny (m : Model) (v : Value) : Except ModelFault Value :=
  if v = .absent then .ok .absent else m.read v .name

/-- The name of an association end without one: that of its association, else one inferred from the
type it refers to. -/
def endName (m : Model) (e : ElementId) : Except ModelFault Value := do
  let association ← m.nameIfAny (m.element e).parent
  if association.isTrue then return association
  let typeName ← m.nameIfAny (← m.read (.ref e) .reference)
  if !typeName.isTrue then return .text []
  let multiplicity ← m.textOrEmpty (← m.read (.ref e) .multiplicity) .trimming
  let typeName ← m.textOrEmpty typeName .lowering
  return .text (← inferredName typeName multiplicity)

def fieldName (m : Model) (v : Value) : Except ModelFault Value := do
  let name ← m.read v .name
  match v with
  | .ref e =>
    if !name.isTrue && (m.element e).kind = .associationEnd then m.endName e else return name
  | _ => return name

/-- The default value after an equals sign; no default value needs no sign. -/
def defaultClause (m : Model) (v : Value) : Except ModelFault Text := do
  if v.isTrue then return "=" ++ (← m.appended v) else return []

/-- The part of a field line after the name: type, default value, directives. -/
def fieldText (m : Model) (e : ElementId) : Emission Text := do
  let type ← m.typeOf .collected e
  let type ← m.appended type.value
  let default ← m.defaultClause (((m.element e).get? .defaultValue).getD .absent)
  let directives ← m.directives e
  return Text.ofString ": " ++ type ++ default ++ directives

/-- The write of an attribute or association end; one without a name writes nothing. -/
def fieldWrite (m : Model) (v : Value) : Emission (List FieldWrite) := do
  let name ← m.fieldName v
  match v with
  | .ref e =>
    if !name.isTrue then return []
    let text ← m.fieldText e
    if m.shape name = .list then Emission.fail (.noKey .list)
    return [(name, ⟨text, (m.element e).documentation⟩)]
  | _ => return []

end Model

end UmlSchema
