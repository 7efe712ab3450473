import UmlSchema.Json.Basic
import UmlSchema.Number.Shortest

/-! JSON values as keys. Numbers of one value are one key, whatever their form, and true and false
are the keys one and zero. Arrays and objects are no keys. -/
namespace UmlSchema

inductive Key where
  | null
  | int (n : Int)
  | real (x : Binary)
  | text (t : Text)
  deriving DecidableEq, Repr

def Key.ofJson? : Json → Option Key
  | .null => some .null
  | .bool b => some (.int (if b then 1 else 0))
  | .int n => some (.int n)
  | .real x => some (match x.toInt? with
    | some n => .int n
    | none => .real x)
  | .str t => some (.text t)
  | .arr _ => none
  | .obj _ => none

/-- How a message names a value that stands where an identifier is expected. -/
def Json.plainText : Json → Text
  | .null => "None"
  | .bool b => if b then "True" else "False"
  | .int n => Text.ofInt n
  | .real x => x.render
  | .str t => t
  | .arr _ => []
  | .obj _ => []

end UmlSchema
