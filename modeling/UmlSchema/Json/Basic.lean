import UmlSchema.Number.Binary
import UmlSchema.Table
import UmlSchema.Text.Basic

/-! JSON values. Whole numbers and numbers with a fraction or exponent are told apart, and an
object keeps its members in order with distinct names. -/
namespace UmlSchema

inductive Json where
  | null
  | bool (b : Bool)
  | int (n : Int)
  | real (x : Binary)
  | str (t : Text)
  | arr (items : List Json)
  | obj (members : List (Text × Json))
  deriving Inhabited

namespace Json

def get? (j : Json) (name : Text) : Option Json :=
  match j with
  | obj members => Table.get? members name
  | _ => none

/-- Null, false, zero and what is empty count as false. -/
def isTrue : Json → Bool
  | null => false
  | bool b => b
  | int n => n != 0
  | real x => !x.isZero
  | str t => !t.isEmpty
  | arr items => !items.isEmpty
  | obj members => !members.isEmpty

def isObject : Json → Bool
  | obj _ => true
  | _ => false

end Json

end UmlSchema
