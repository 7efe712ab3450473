import UmlSchema.Model.Value
import UmlSchema.Text.Quoted

/-! Names that GraphQL accepts: a letter or low line of ASCII, then letters, digits and low
lines. -/
namespace UmlSchema

namespace CodePoint

def isNameStart : CodePoint → Bool
  | scalar c => c = '_' || ('a' ≤ c && c ≤ 'z') || ('A' ≤ c && c ≤ 'Z')
  | surrogate _ => false

def isNameContinue (c : CodePoint) : Bool :=
  c.isNameStart || match c with
    | scalar c => '0' ≤ c && c ≤ '9'
    | surrogate _ => false

end CodePoint

inductive NameFault where
  | absent
  | noText
  | empty
  | badContinue (name : Text)
  | badStart (name : Text)
  deriving DecidableEq, Repr

namespace NameFault

def message : NameFault → Text
  | absent => "Must provide name."
  | noText => "Expected name to be a string."
  | empty => "Expected name to be a non-empty string."
  | badContinue name =>
    "Names must only contain [_a-zA-Z0-9] but " ++ name.quoted ++ " does not."
  | badStart name => "Names must start with [_a-zA-Z] but " ++ name.quoted ++ " does not."

/-- The characters after the first are looked at before the first. -/
def of? : Value → Option NameFault
  | .absent => some absent
  | .text [] => some empty
  | .text (c :: cs) =>
    if !cs.all (·.isNameContinue) then some (badContinue (c :: cs))
    else if !c.isNameStart then some (badStart (c :: cs))
    else none
  | _ => some noText

end NameFault

end UmlSchema
