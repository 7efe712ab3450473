import UmlSchema.Model.Basic

/-! Finding elements by qualified name: simple names from the outside in, with `::` between them. -/
namespace UmlSchema

/-- The names of a qualified name. Empty ones do not count. -/
def qualifiedParts (t : Text) : List Text :=
  (segments [] t).filter (!·.isEmpty)
where
  segments (current : Text) : Text → List Text
    | [] => [current.reverse]
    | .scalar ':' :: .scalar ':' :: rest => current.reverse :: segments [] rest
    | c :: rest => segments (c :: current) rest

namespace Model

def firstNamed (m : Model) (name : Text) : List Value → Except ModelFault (Option ElementId)
  | [] => .ok none
  | v :: vs => do
    if (← m.read v .name) = .text name then return v.element? else m.firstNamed name vs

def child? (m : Model) (e : ElementId) (name : Text) : Except ModelFault (Option ElementId) := do
  m.firstNamed name (← m.members (m.element e).owned)

def descend (m : Model) (e : ElementId) : List Text → Except ModelFault (Option ElementId)
  | [] => .ok (some e)
  | name :: names => do
    match ← m.child? e name with
    | some c => m.descend c names
    | none => return none

/-- Looks up a qualified name from an element down. The name of that element may stand first; no
names at all mean the element itself. -/
def find? (m : Model) (e : ElementId) (qualifiedName : Text) :
    Except ModelFault (Option ElementId) := do
  match qualifiedParts qualifiedName with
  | [] => return some e
  | first :: rest =>
    let leads := (m.element e).name = .text first
    let below ← if leads ∧ rest ≠ [] then m.descend e rest else pure none
    match below with
    | some found => return some found
    | none => if leads ∧ rest = [] then return some e else m.descend e (first :: rest)

end Model

end UmlSchema
