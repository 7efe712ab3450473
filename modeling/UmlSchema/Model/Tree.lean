import UmlSchema.Model.Basic

/-! The tree of elements: up along parents, down along owned elements. Walks are cut off at the
number of elements, which no path without a repetition exceeds. -/
namespace UmlSchema.Model

def climb (m : Model) : Nat → ElementId → Except ModelFault ElementId
  | 0, e => .ok e
  | n + 1, e =>
    match (m.element e).parent with
    | .absent => .ok e
    | .ref p => m.climb n p
    | v => .error (.lacks (m.shape v) .parent)

def root (m : Model) (e : ElementId) : Except ModelFault ElementId := m.climb m.size e

def walkWithin (m : Model) : Nat → Value → Except ModelFault (List ElementId)
  | 0, _ => .ok []
  | n + 1, .ref e => do
    let owned ← m.members (m.element e).owned
    let below ← owned.mapM (m.walkWithin n)
    return e :: below.flatten
  | _ + 1, v => .error (.noTree (m.shape v))

/-- The element and all it owns, each before what it owns, in order. -/
def walk (m : Model) (e : ElementId) : Except ModelFault (List ElementId) :=
  m.walkWithin (m.size + 1) (.ref e)

end UmlSchema.Model
