import UmlSchema.Model.Tree

/-! Relationship queries. A repository is a model with the list of relationships to look at, in
document order; the ends of a relationship are those it has in the model when it is asked. What is
asked about is a value, because a relationship may lead to none at all. -/
namespace UmlSchema

structure Repository where
  model : Model
  relationships : List ElementId

namespace Repository

def below (m : Model) (e : ElementId) : Except ModelFault Repository := do
  return ⟨m, (← m.walk e).filter fun r => (m.element r).isA .relationship⟩

def around (m : Model) (e : ElementId) : Except ModelFault Repository := do
  below m (← m.root e)

def readOf (r : Repository) (rel : ElementId) (f : Field) : Except ModelFault Value :=
  r.model.read (.ref rel) f

def reference (r : Repository) (association : ElementId) (f : Field) : Except ModelFault Value := do
  r.model.read (← r.readOf association f) .reference

/-- Whether a relationship has a value at one of its ends. The second end is looked at only if the
first one is not the value. -/
def touches (r : Repository) (v : Value) (rel : ElementId) : Except ModelFault Bool := do
  if (r.model.element rel).isA .directedRelationship then
    if v.isSame (← r.readOf rel .source) then return true
    return v.isSame (← r.readOf rel .target)
  else if (r.model.element rel).kind = .association then
    if v.isSame (← r.reference rel .end1) then return true
    return v.isSame (← r.reference rel .end2)
  else return false

/-- The members of a list that pass a test, in order, unless the test fails on one of them. -/
def select {α : Type} (test : α → Except ModelFault Bool) : List α → Except ModelFault (List α)
  | [] => .ok []
  | x :: xs => do
    let keep ← test x
    let rest ← select test xs
    return if keep then x :: rest else rest

def relationshipsOf (r : Repository) (v : Value) : Except ModelFault (List ElementId) :=
  select (r.touches v) r.relationships

def startsAt (r : Repository) (k : Kind) (v : Value) (rel : ElementId) : Bool :=
  (r.model.element rel).kind = k && ((r.model.element rel).get? .source).any v.isSame

def targets (r : Repository) (k : Kind) (v : Value) : Except ModelFault (List Value) := do
  let rels ← r.relationshipsOf v
  (rels.filter (r.startsAt k v)).mapM fun rel => r.readOf rel .target

def superClasses (r : Repository) := r.targets .generalization

def superInterfaces (r : Repository) := r.targets .interfaceRealization

def dependencyTargets (r : Repository) := r.targets .dependency

def associationsOf (r : Repository) (v : Value) : Except ModelFault (List ElementId) := do
  return (← r.relationshipsOf v).filter fun rel => (r.model.element rel).isA .association

end Repository

end UmlSchema
