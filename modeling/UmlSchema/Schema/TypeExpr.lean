import UmlSchema.Platform.Basic
import UmlSchema.Report.Emission
import UmlSchema.Text.Digit

/-! Type expressions: a type name, decorated after a multiplicity.

    0..1        Type
    1           Type!
    0..* or *   [Type]
    1..*        [Type!]
    a number    [Type!]
-/
namespace UmlSchema

inductive Cardinality where
  | optional
  | required
  | many
  | someOf
  deriving DecidableEq, Repr

namespace Cardinality

def decorate (typeName : Text) : Cardinality → Text
  | optional => typeName
  | required => typeName ++ "!"
  | many => "[" ++ typeName ++ "]"
  | someOf => "[" ++ typeName ++ "!]"

/-- The cardinality of a trimmed multiplicity. Every number other than a plain 1 is a list. -/
def ofToken? (m : Text) : Option Cardinality :=
  if m = "0..1" then some optional
  else if m = "1" then some required
  else if !m.isEmpty && m.all (·.isDigit) then some someOf
  else if m = "0..*" ∨ m = "*" then some many
  else if m = "1..*" then some someOf
  else none

/-- An empty multiplicity counts as optional. -/
def ofMultiplicity? (m : Text) : Option Cardinality :=
  if m.isEmpty then some optional else ofToken? m.trim

end Cardinality

def unknownMultiplicity (multiplicity typeName : Text) : Text :=
  "Unknown multiplicity '" ++ multiplicity.trim ++ "' for type " ++ typeName ++ ", left undecorated"

/-- Whether a problem becomes a warning of the run or only a log record. -/
inductive Reporting where
  | collected
  | logged
  deriving DecidableEq, Repr

/-- The type expression for a type name and a multiplicity; an unknown multiplicity is reported
under the name of the element that has it, and leaves the type name as it is. -/
def typeExpr (reporting : Reporting) (typeName multiplicity : Text) (element : Shown) :
    Emission Text :=
  match Cardinality.ofMultiplicity? multiplicity with
  | some c => pure (c.decorate typeName)
  | none => do
    let message := unknownMultiplicity multiplicity typeName
    match reporting with
    | .collected => Emission.warn .unknownMultiplicity message element
    | .logged => Emission.emit (.log ⟨.warning, .types, message⟩)
    return typeName

namespace Model

variable [Platform]

def elementTypeName (m : Model) (v : Value) : Shown :=
  match v with
  | .ref e => if (m.element e).name.isTrue then m.shownName e else .ofText Platform.defaultTypeName
  | _ => .ofText Platform.defaultTypeName

def baseTypeName (m : Model) (e : ElementId) : Shown :=
  let x := m.element e
  if x.kind = .associationEnd then m.elementTypeName ((x.get? .reference).getD .absent)
  else match x.get? .type with
    | some (.text t) => .ofText (if t.isEmpty then Platform.defaultTypeName else t)
    | v => m.elementTypeName (v.getD .absent)

/-- The type expression of an element. A type name that nothing is added to stays the value it
is. -/
def typeOf (m : Model) (reporting : Reporting) (e : ElementId) : Emission Shown := do
  let base := m.baseTypeName e
  let multiplicity ←
    m.textOrEmpty (((m.element e).get? .multiplicity).getD .absent) .trimming
  let text ← typeExpr reporting base.text multiplicity (m.shownName e)
  return if text = base.text then base else .ofText text

end Model

end UmlSchema
