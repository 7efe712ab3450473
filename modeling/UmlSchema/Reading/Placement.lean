import UmlSchema.Model.Basic
import UmlSchema.Reading.Node

/-! From nodes to a model. Elements are numbered in document order, each before its children. -/
namespace UmlSchema.Node

mutual

def size : Node → Nat
  | mk _ _ _ children => sizes children + 1

def sizes : List (Field × Node) → Nat
  | [] => 0
  | (_, n) :: rest => n.size + sizes rest

end

def childIds (next : ElementId) : List (Field × Node) → List (Field × ElementId)
  | [] => []
  | (f, n) :: rest => (f, next) :: childIds (next + n.size) rest

/-- Links an element to a child: a list grows by it, a single field is set to it. -/
def attach (e : Element) (child : Field × ElementId) : Element :=
  match e.get? child.1 with
  | some (.refs es) => e.set child.1 (.refs (es ++ [child.2]))
  | _ => e.set child.1 (.ref child.2)

mutual

def elements (parent : Value) (self : ElementId) : Node → List Element
  | mk head _ _ children =>
    { (childIds (self + 1) children).foldl attach head with parent := parent }
      :: elementsOf self (self + 1) children

def elementsOf (parent next : ElementId) : List (Field × Node) → List Element
  | [] => []
  | (_, n) :: rest => n.elements (.ref parent) next ++ elementsOf parent (next + n.size) rest

end

mutual

def identifiers (self : ElementId) : Node → List (Key × ElementId)
  | mk _ id _ children =>
    (match id with
      | some k => [(k, self)]
      | none => []) ++ identifiersOf (self + 1) children

def identifiersOf (next : ElementId) : List (Field × Node) → List (Key × ElementId)
  | [] => []
  | (_, n) :: rest => n.identifiers next ++ identifiersOf (next + n.size) rest

end

structure OpenReference where
  element : ElementId
  field : Field
  id : Json

mutual

def openReferences (self : ElementId) : Node → List OpenReference
  | mk _ _ references children =>
    references.map (fun (f, id) => ⟨self, f, id⟩) ++ openReferencesOf (self + 1) children

def openReferencesOf (next : ElementId) : List (Field × Node) → List OpenReference
  | [] => []
  | (_, n) :: rest => n.openReferences next ++ openReferencesOf (next + n.size) rest

end

/-- The model of a node, with its references still open. The root has the number zero. -/
def place (n : Node) : Model := ⟨(n.elements .absent 0).toArray⟩

end UmlSchema.Node
