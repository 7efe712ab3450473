import UmlSchema.Model.Basic
import UmlSchema.Text.Quoted

/-! Values as text. A text is shown as it is. An element is shown with its kind and its fields other
than the parent, and dots stand for an element, or a list, inside of itself. -/
namespace UmlSchema

structure Shown where
  value : Value
  text : Text
  deriving DecidableEq, Repr

def Shown.ofText (t : Text) : Shown := ⟨.text t, t⟩

/-- What a description calls a value that is neither a text nor made of elements. -/
def Value.plain : Value → Text
  | .flag b => if b then "True" else "False"
  | _ => "None"

namespace Model

abbrev ListPlace := ElementId × Field

def listText (items : List Text) : Text := "[" ++ Text.joinWith ", " items ++ "]"

/-- The text of an element inside of others. `list` is the list that they all stand in, if the
outermost value is a list. -/
def elementText (m : Model) (list : Option ListPlace) : Nat → List ElementId → ElementId → Text
  | 0, _, _ => "..."
  | n + 1, others, e =>
    if e ∈ others then "..."
    else
      let x := m.element e
      let inside := m.elementText list n (e :: others)
      let valueText (f : Field) : Text :=
        match x.get? f with
        | some (.text t) => t.quoted
        | some (.ref t) => inside t
        | some (.refs ts) =>
          if list = some (e, f) ∧ ts ≠ [] then "[...]" else listText (ts.map inside)
        | some v => v.plain
        | none => []
      let fields := x.kind.fields.filter (· ≠ .parent)
      let terms := fields.map fun f => f.label ++ "=" ++ valueText f
      x.kind.label ++ "(" ++ Text.joinWith ", " terms ++ ")"

def shownValue (m : Model) (e : ElementId) (f : Field) (v : Value) : Shown :=
  ⟨v, match v with
    | .text t => t
    | .ref t => m.elementText none (m.size + 1) [] t
    | .refs ts => listText (ts.map (m.elementText (some (e, f)) (m.size + 1) []))
    | v => v.plain⟩

def shown (m : Model) (v : Value) (f : Field) : Except ModelFault Shown := do
  let x ← m.read v f
  return m.shownValue (v.element?.getD 0) f x

def shownName (m : Model) (e : ElementId) : Shown := m.shownValue e .name (m.element e).name

end Model

end UmlSchema
