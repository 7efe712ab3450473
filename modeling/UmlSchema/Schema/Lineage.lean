import UmlSchema.Model.Repository
import UmlSchema.Schema.FieldTable

/-! Inheritance walks, and the field tables they give. Ancestors come before descendants, so that
descendants replace inherited fields. -/
namespace UmlSchema.Repository

variable [Platform]

/-- A class after its ancestors along first parents. The walk stops at an element met before, and at
a list, which has no ancestors. -/
def classChainWithin (r : Repository) : Nat → List Value → Value → Except ModelFault (List Value)
  | 0, _, _ => .ok []
  | n + 1, visited, v =>
    if v ∈ visited then .ok []
    else if r.model.shape v = .list then .ok [v]
    else do
      match ← r.superClasses v with
      | [] => return [v]
      | parent :: _ => return (← r.classChainWithin n (v :: visited) parent) ++ [v]

def classChain (r : Repository) (v : Value) : Except ModelFault (List Value) :=
  r.classChainWithin (r.model.size + 2) [] v

/-- The elements met so far, and an interface after all its ancestors that are new. -/
def interfaceOrderWithin (r : Repository) : Nat → List Value → Value →
    Except ModelFault (List Value × List Value)
  | 0, visited, _ => .ok (visited, [])
  | n + 1, visited, v =>
    if v ∈ visited then .ok (visited, [])
    else if r.model.shape v = .list then .ok (visited, [v])
    else do
      let parents ← r.superClasses v
      let (visited, order) ← parents.foldlM (fun (visited, order) parent => do
        let (visited, more) ← r.interfaceOrderWithin n visited parent
        return (visited, order ++ more)) (v :: visited, [])
      return (visited, order ++ [v])

/-- An interface after all its ancestors, each once, depth first in the order of the parents. -/
def interfaceOrder (r : Repository) (v : Value) : Except ModelFault (List Value) := do
  let (_, order) ← r.interfaceOrderWithin (r.model.size + 2) [] v
  return order

def navigable (r : Repository) (association : ElementId) (f : Field) : Except ModelFault Bool := do
  return (← r.model.read (← r.readOf association f) .navigable).isTrue

def endWrite (r : Repository) (v : Value) (association : ElementId) (near far : Field) :
    Emission (List FieldWrite) := do
  if v.isSame (← r.reference association near) then
    if ← r.navigable association far then r.model.fieldWrite (← r.readOf association far)
    else return []
  else return []

def associationWrites (r : Repository) (v : Value) (association : ElementId) :
    Emission (List FieldWrite) := do
  let first ← r.endWrite v association .end2 .end1
  let second ← r.endWrite v association .end1 .end2
  return first ++ second

/-- The writes of an element itself: its attributes, then the far ends of its associations. -/
def ownWrites (r : Repository) (v : Value) : Emission (List FieldWrite) := do
  if r.model.shape v = .list then Emission.fail (.noKey .list)
  let attributes ← r.model.members ((r.model.get? v .attributes).getD (.refs []))
  let fromAttributes ← Emission.collect attributes r.model.fieldWrite
  let associations ← r.associationsOf v
  let name ← r.model.shown v .name
  Emission.debug .fields (name.text ++ ": " ++ Text.ofNat associations.length ++ " associations")
  let fromAssociations ← Emission.collect associations (r.associationWrites v)
  return fromAttributes.flatten ++ fromAssociations.flatten

def writesOf (r : Repository) (order : List Value) : Emission (List FieldWrite) := do
  let writes ← Emission.collect order r.ownWrites
  return writes.flatten

def interfaceWrites (r : Repository) (v : Value) : Emission (List FieldWrite) := do
  let order ← r.interfaceOrder v
  r.writesOf order

/-- The writes of a class: its interfaces in order, then its class chain. -/
def classWrites (r : Repository) (v : Value) : Emission (List FieldWrite) := do
  let interfaces ← r.superInterfaces v
  let fromInterfaces ← Emission.collect interfaces r.interfaceWrites
  let chain ← r.classChain v
  let fromChain ← r.writesOf chain
  return fromInterfaces.flatten ++ fromChain

def interfaceTable (r : Repository) (e : ElementId) : Emission FieldTable := do
  return Table.ofWrites (← r.interfaceWrites (.ref e))

def classTable (r : Repository) (e : ElementId) : Emission FieldTable := do
  return Table.ofWrites (← r.classWrites (.ref e))

end UmlSchema.Repository
