import UmlSchema.Model.Basic

/-! Edits of a model. An edit that fails keeps what it had done up to then. -/
namespace UmlSchema

abbrev Edit := ExceptT ModelFault (StateM Model)

namespace Edit

/-- Sets a field and nothing else; parents stay as they are. -/
def put (e : ElementId) (f : Field) (v : Value) : Edit Unit := modify fun m => m.set e f v

def append (e : ElementId) (f : Field) (member : ElementId) : Edit Unit := do
  let m ← get
  match ← m.read (.ref e) f with
  | .refs es => put e f (.refs (es ++ [member]))
  | v => throw (.noList (m.shape v))

def adopt (parent : ElementId) : Value → Edit Unit
  | .ref c => put c .parent (.ref parent)
  | v => do throw (.lacks ((← get).shape v) .parent)

def add (parent child : ElementId) : Edit Unit := do
  adopt parent (.ref child)
  append parent .owned child

def place (x : Element) : Edit ElementId := modifyGet fun m => (m.size, m.push x)

def supplyEnd (given : List Field) (e : ElementId) (f : Field) : Edit Unit := do
  if f ∉ given then
    let x ← place (.blank .associationEnd)
    put e f (.ref x)

/-- Adds an element of a kind with some of its fields given. The elements it owns and the ends of an
association become its children; other members keep their parents. -/
def create (k : Kind) (fields : List (Field × Value)) : Edit ElementId := do
  let e ← place (fields.foldl (fun x f => x.set f.1 f.2) (.blank k))
  if k = .association then
    supplyEnd (fields.map (·.1)) e .end1
    supplyEnd (fields.map (·.1)) e .end2
  let m ← get
  (← m.members (m.element e).owned).forM (adopt e)
  if k = .association then
    adopt e (← m.read (.ref e) .end1)
    adopt e (← m.read (.ref e) .end2)
  return e

end Edit

end UmlSchema
