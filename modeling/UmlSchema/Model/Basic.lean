import UmlSchema.Model.Element
import UmlSchema.Model.Fault

/-! A model: elements by number. The links between them are free. -/
namespace UmlSchema

structure Model where
  elements : Array Element := #[]

namespace Model

def size (m : Model) : Nat := m.elements.size

/-- The element of a number; a number that stands for nothing gives a blank element. -/
def element (m : Model) (e : ElementId) : Element := m.elements.getD e {}

def update (m : Model) (e : ElementId) (f : Element → Element) : Model :=
  ⟨m.elements.modify e f⟩

def push (m : Model) (e : Element) : Model := ⟨m.elements.push e⟩

def set (m : Model) (e : ElementId) (f : Field) (v : Value) : Model :=
  m.update e fun x => x.set f v

def shape (m : Model) : Value → Shape
  | .absent => .absent
  | .flag _ => .flag
  | .text _ => .text
  | .ref e => .element (m.element e).kind
  | .refs _ => .list

/-- A field of what a value stands for. Only elements have fields. -/
def get? (m : Model) (v : Value) (f : Field) : Option Value :=
  v.element?.bind fun e => (m.element e).get? f

def read (m : Model) (v : Value) (f : Field) : Except ModelFault Value :=
  match m.get? v f with
  | some x => .ok x
  | none => .error (.lacks (m.shape v) f)

def members (m : Model) (v : Value) : Except ModelFault (List Value) :=
  match v.members? with
  | some vs => .ok vs
  | none => .error (.noMembers (m.shape v))

/-- A text to be worked on; what counts as false counts as the empty text. -/
def textOrEmpty (m : Model) (v : Value) (use : TextUse) : Except ModelFault Text :=
  if !v.isTrue then .ok []
  else match v with
    | .text t => .ok t
    | v => .error (.noText (m.shape v) use)

def appended (m : Model) : Value → Except ModelFault Text
  | .text t => .ok t
  | v => .error (.cannotAppend (m.shape v))

def prepended (m : Model) : Value → Except ModelFault Text
  | .text t => .ok t
  | v => .error (.cannotPrepend (m.shape v))

/-- The texts of a list to be joined; `position` is the place of the first. -/
def textsFrom (m : Model) (position : Nat) : List Value → Except ModelFault (List Text)
  | [] => .ok []
  | .text t :: vs => do return t :: (← m.textsFrom (position + 1) vs)
  | v :: _ => .error (.cannotJoin (m.shape v) position)

def joined (m : Model) (mark : Text) (vs : List Value) : Except ModelFault Text := do
  return Text.joinWith mark (← m.textsFrom 0 vs)

end Model

end UmlSchema
