import UmlSchema.Model.Field
import UmlSchema.Model.Kind
import UmlSchema.Model.Value
import UmlSchema.Table

/-! Model elements. An element is of a kind, has the five fields that all elements have, and more
fields of its own. -/
namespace UmlSchema

def Field.common : List Field := [.name, .documentation, .tags, .owned, .parent]

namespace Kind

private def noText : Value := .text []

private def features : Table Field Value :=
  [(.stereotype, noText), (.attributes, .refs []), (.operations, .refs [])]

private def typed : Table Field Value :=
  [(.type, .absent), (.multiplicity, noText), (.defaultValue, noText)]

private def ends : Table Field Value := [(.source, .absent), (.target, .absent)]

/-- The fields that a kind adds to the common ones, with their first values: a parameter is an
input, an end can be followed, and a class is not abstract. -/
def ownFields : Kind → Table Field Value
  | tag => [(.value, noText)]
  | constraint => [(.specification, noText)]
  | project => [(.version, noText), (.author, noText), (.copyright, noText)]
  | enumeration => [(.literals, .refs [])]
  | property => typed
  | parameter => typed ++ [(.direction, .text "in")]
  | operation => [(.parameters, .refs [])]
  | classifier | interface => features
  | klass => features ++ [(.isAbstract, .flag false)]
  | directedRelationship | generalization | interfaceRealization | dependency => ends
  | associationEnd =>
    [(.reference, .absent), (.navigable, .flag true), (.multiplicity, noText),
     (.defaultValue, noText)]
  | association => [(.end1, .absent), (.end2, .absent)]
  | element | package | model | primitiveType | enumerationLiteral | relationship => []

def fields (k : Kind) : List Field := Field.common ++ k.ownFields.keys

def undeclared? (k : Kind) (labels : List Text) : Option Text :=
  labels.find? fun l => !(k.fields.any fun f => f.label == l)

end Kind

structure Element where
  kind : Kind := .element
  name : Value := .text []
  documentation : Value := .text []
  tags : Value := .refs []
  owned : Value := .refs []
  parent : Value := .absent
  own : Table Field Value := []
  deriving DecidableEq, Repr

instance : Inhabited Element := ⟨{}⟩

namespace Element

def blank (k : Kind) : Element := { kind := k, own := k.ownFields }

def isA (e : Element) (k : Kind) : Bool := e.kind.isA k

def get? (e : Element) : Field → Option Value
  | .name => some e.name
  | .documentation => some e.documentation
  | .tags => some e.tags
  | .owned => some e.owned
  | .parent => some e.parent
  | f => e.own.get? f

/-- Sets a field. An element may get fields that others of its kind do not have. -/
def set (e : Element) (f : Field) (v : Value) : Element :=
  match f with
  | .name => { e with name := v }
  | .documentation => { e with documentation := v }
  | .tags => { e with tags := v }
  | .owned => { e with owned := v }
  | .parent => { e with parent := v }
  | f => { e with own := e.own.put f v }

def has (e : Element) (f : Field) : Bool := (e.get? f).isSome

def replace (e : Element) (f : Field) (v : Value) : Element := if e.has f then e.set f v else e

@[simp] theorem get?_set_self (e : Element) (f : Field) (v : Value) :
    (e.set f v).get? f = some v := by
  cases f <;> simp [set, get?]

theorem get?_set_of_ne (e : Element) {f g : Field} (v : Value) (h : f ≠ g) :
    (e.set f v).get? g = e.get? g := by
  cases f <;> cases g <;> simp_all [set, get?, Table.get?_put_of_ne]

@[simp] theorem kind_set (e : Element) (f : Field) (v : Value) : (e.set f v).kind = e.kind := by
  cases f <;> rfl

end Element

end UmlSchema
