import UmlSchema.Text.Basic

/-! What the fields of elements hold. Elements refer to each other by number. A field has no type of
its own: whoever edits a model may put any value into any field, and what a value is good for shows
when the field is used. -/
namespace UmlSchema

abbrev ElementId := Nat

inductive Value where
  | absent
  | flag (b : Bool)
  | text (t : Text)
  | ref (e : ElementId)
  | refs (es : List ElementId)
  deriving DecidableEq, Repr, Inhabited

namespace Value

instance : Coe Text Value := ⟨text⟩

/-- What is absent, false or empty counts as false. -/
def isTrue : Value → Bool
  | absent => false
  | flag b => b
  | text t => !t.isEmpty
  | ref _ => true
  | refs es => !es.isEmpty

def element? : Value → Option ElementId
  | ref e => some e
  | _ => none

/-- Short texts are shared: the empty one, and those of one code point below U+0100. -/
def isShared : Text → Bool
  | [] => true
  | [c] => c.toNat < 0x100
  | _ => false

/-- Whether a value is one and the same thing as another. An element is known by its number. A list
or a longer text is a thing of its own, so that no other place holds the same one, whatever is in
it. -/
def isSame : Value → Value → Bool
  | absent, w => w = absent
  | flag b, w => w = flag b
  | text t, w => isShared t && w = text t
  | ref e, w => w = ref e
  | refs _, _ => false

/-- The members of a list of elements, and the letters of a text. -/
def members? : Value → Option (List Value)
  | refs es => some (es.map ref)
  | text t => some (t.map fun c => text [c])
  | _ => none

@[simp] theorem isSame_ref (e : ElementId) (w : Value) :
    (ref e).isSame w = decide (w = ref e) := rfl

@[simp] theorem isSame_absent (w : Value) : absent.isSame w = decide (w = absent) := rfl

theorem eq_of_isSame {v w : Value} (h : v.isSame w = true) : w = v := by
  cases v <;> simp_all [isSame]

end Value

end UmlSchema
