import UmlSchema.Json.Key
import UmlSchema.Json.Shape
import UmlSchema.Model.Element

/-! Document nodes. A model document is a tree of JSON objects, one for each element. A node is such
an object as an element of its own kind, with its references still open and its children below it.
What a diagram shows is not part of the model and has no node. -/
namespace UmlSchema

inductive ShapeFault where
  /-- A list of children is a value without members. -/
  | notAList (shape : Json.Shape)
  | notAKey (shape : Json.Shape)
  | notATypeName (shape : Json.Shape)
  deriving DecidableEq, Repr

/-- The element without its children, its identifier, its open references by field, and its children
by field, in document order. -/
inductive Node where
  | mk (head : Element) (id : Option Key) (references : List (Field × Json))
      (children : List (Field × Node))

namespace Node

def blank (k : Kind) : Node := mk (.blank k) none [] []

/-- An object with a `$ref` member refers to the element of that identifier. -/
def reference? (j : Json) : Option Json := j.get? "$ref"

/-- Old documents say with a truth value and new ones with a word whether an end can be followed. -/
def isNavigable : Json → Bool
  | .null => true
  | .str t => t = "navigable"
  | j => j.isTrue

def isDiagramType (typeName : Text) : Bool :=
  typeName.endsWith "Diagram" || typeName.endsWith "View"

/-- A member of an object: its value, the node it makes if it is an object, and the values and nodes
of its items if it is an array. -/
structure View where
  value : Json
  node : Except ShapeFault Node
  items : List (Json × Except ShapeFault Node)

abbrev Views := List (Text × View)

def member? (vs : Views) (name : String) : Option View :=
  (vs.find? fun v => v.1 == Text.ofString name).map (·.2)

def value? (vs : Views) (name : String) : Option Json := (member? vs name).map (·.value)

/-- The kind that a type name stands for; unknown names stand for a plain element. -/
def kindOf : Option Json → Except ShapeFault Kind
  | some (.str t) => .ok (((Kind.ofLabel? t).filter (!·.isShape)).getD .element)
  | some (.arr _) => .error (.notAKey .arr)
  | some (.obj _) => .error (.notAKey .obj)
  | _ => .ok .element

def idOf (vs : Views) : Except ShapeFault (Option Key) :=
  match value? vs "_id" with
  | none => .ok none
  | some j =>
    match Key.ofJson? j with
    | some k => .ok (some k)
    | none => .error (.notAKey j.shape)

/-- Members that are copied to a field when they are texts. -/
def textMembers : List (String × Field) :=
  [("name", .name), ("documentation", .documentation), ("version", .version), ("author", .author),
   ("copyright", .copyright), ("value", .value), ("specification", .specification),
   ("multiplicity", .multiplicity), ("defaultValue", .defaultValue), ("direction", .direction),
   ("stereotype", .stereotype), ("type", .type)]

def referenceMembers : List (String × Field) :=
  [("stereotype", .stereotype), ("type", .type), ("reference", .reference), ("source", .source),
   ("target", .target)]

def listMembers : List (String × Field) :=
  [("attributes", .attributes), ("operations", .operations), ("parameters", .parameters),
   ("literals", .literals), ("tags", .tags)]

def headOf (k : Kind) (vs : Views) : Element :=
  let texts := textMembers.foldl (fun e (name, f) =>
    match value? vs name with
    | some (.str t) => e.replace f (.text t)
    | _ => e) (Element.blank k)
  let isAbstract := ((value? vs "isAbstract").getD .null).isTrue
  let navigable := isNavigable ((value? vs "navigable").getD .null)
  (texts.replace .isAbstract (.flag isAbstract)).replace .navigable (.flag navigable)

def referencesOf (head : Element) (vs : Views) : List (Field × Json) :=
  referenceMembers.filterMap fun (name, f) =>
    if head.has f then ((value? vs name).bind reference?).map fun id => (f, id) else none

/-- The items of a list of children. Texts and objects count as lists without children. -/
def itemsOf (v : View) : Except ShapeFault (List (Json × Except ShapeFault Node)) :=
  match v.value with
  | .arr _ => .ok v.items
  | .str _ => .ok []
  | .obj _ => .ok []
  | j => .error (.notAList j.shape)

def listChildren (head : Element) (vs : Views) (name : String) (f : Field) :
    Except ShapeFault (List (Field × Node)) :=
  match member? vs name with
  | none => .ok []
  | some v =>
    if head.has f then do
      let objects := (← itemsOf v).filter fun i => i.1.isObject
      objects.mapM fun i => i.2.map fun n => (f, n)
    else .ok []

/-- An end of an association; one that is not given is blank. -/
def endChild (vs : Views) (name : String) (f : Field) : Except ShapeFault (Field × Node) :=
  match member? vs name with
  | some v =>
    if v.value.isObject then v.node.map fun n => (f, n) else .ok (f, blank .associationEnd)
  | none => .ok (f, blank .associationEnd)

def endChildren (head : Element) (vs : Views) : Except ShapeFault (List (Field × Node)) :=
  if head.kind = .association then do
    let first ← endChild vs "end1" .end1
    let second ← endChild vs "end2" .end2
    return [first, second]
  else .ok []

def isDiagram (j : Json) : Except ShapeFault Bool :=
  match j.get? "_type" with
  | none => .ok false
  | some (.str t) => .ok (isDiagramType t)
  | some other => .error (.notATypeName other.shape)

def ownedFrom : List (Json × Except ShapeFault Node) →
    Except ShapeFault (List (Field × Node))
  | [] => .ok []
  | (j, node) :: rest => do
    if !j.isObject then ownedFrom rest
    else if ← isDiagram j then ownedFrom rest
    else
      let n ← node
      return (.owned, n) :: (← ownedFrom rest)

def ownedChildren (vs : Views) : Except ShapeFault (List (Field × Node)) :=
  match member? vs "ownedElements" with
  | none => .ok []
  | some v => do ownedFrom (← itemsOf v)

def assemble (vs : Views) : Except ShapeFault Node := do
  let kind ← kindOf (value? vs "_type")
  let id ← idOf vs
  let head := headOf kind vs
  let lists ← listMembers.mapM fun (name, f) => listChildren head vs name f
  let ends ← endChildren head vs
  let owned ← ownedChildren vs
  return mk head id (referencesOf head vs) (lists.flatten ++ ends ++ owned)

mutual

def view : Json → View
  | .obj members => ⟨.obj members, assemble (viewMembers members), []⟩
  | .arr items => ⟨.arr items, .ok (blank .element), viewItems items⟩
  | j => ⟨j, .ok (blank .element), []⟩

def viewItems : List Json → List (Json × Except ShapeFault Node)
  | [] => []
  | j :: js => (j, (view j).node) :: viewItems js

def viewMembers : List (Text × Json) → Views
  | [] => []
  | (name, j) :: ms => (name, view j) :: viewMembers ms

end

def ofJson (j : Json) : Except ShapeFault Node := (view j).node

end Node

end UmlSchema
