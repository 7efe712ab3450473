import UmlSchema.Text.Basic

/-! Word patterns. Letters are compared without regard to case, and a rule says where in a word its
pattern has to stand, which part of the match stays and what follows it. -/
namespace UmlSchema

/-- Lower case for matching: long s is an s, the Kelvin sign a k, and both dotted and dotless I an
i. Code points outside of the Latin alphabet stay as they are. -/
def CodePoint.caseless (c : CodePoint) : CodePoint :=
  let n := c.toNat
  if 0x41 ≤ n ∧ n ≤ 0x5A then ofNat (n + 32)
  else if n = 0x17F then .scalar 's'
  else if n = 0x212A then .scalar 'k'
  else if n = 0x130 ∨ n = 0x131 then .scalar 'i'
  else c

namespace Inflection

inductive Letter where
  | oneOf (letters : List Char)
  | noneOf (letters : List Char)
  deriving DecidableEq, Repr

namespace Letter

def accepts (c : CodePoint) : Letter → Bool
  | oneOf ls => ls.any fun l => c.caseless = .scalar l
  | noneOf ls => !ls.any fun l => c.caseless = .scalar l

def word (s : String) : List Letter := s.toList.map fun c => oneOf [c]

end Letter

def acceptsAll : List Letter → Text → Bool
  | [], [] => true
  | l :: ls, c :: cs => l.accepts c && acceptsAll ls cs
  | _, _ => false

/-- One alternative of a rule: letters that stay, then letters that go. The first `echo` letters of
those that stay are written once more after them. -/
structure Branch where
  kept : List Letter
  dropped : List Letter
  echo : Nat := 0
  deriving DecidableEq, Repr

inductive Place where
  | whole
  | ending
  /-- The end of the text, with a final line feed taken as part of the word. -/
  | last
  | anywhere
  deriving DecidableEq, Repr

structure Rule where
  place : Place
  branches : List Branch
  insert : Text
  deriving DecidableEq, Repr

namespace Branch

def size (b : Branch) : Nat := b.kept.length + b.dropped.length

def replaced (b : Branch) (insert found : Text) : Text :=
  let kept := found.take b.kept.length
  kept ++ kept.take b.echo ++ insert

def fits (b : Branch) (t : Text) : Bool := acceptsAll (b.kept ++ b.dropped) t

def applyAtEnd? (b : Branch) (insert t : Text) : Option Text :=
  let cut := t.length - b.size
  if b.fits (t.drop cut) then some (t.take cut ++ b.replaced insert (t.drop cut)) else none

def applyToWhole? (b : Branch) (insert t : Text) : Option Text :=
  if b.fits t then some (b.replaced insert t) else none

end Branch

def splitFinalFeed (t : Text) : Text × Text :=
  match t.getLast? with
  | some (.scalar '\n') => (t.dropLast, [.scalar '\n'])
  | _ => (t, [])

def applyAnywhere? (branches : List Branch) (insert : Text) : Text → Option Text
  | [] => none
  | c :: cs =>
    match branches.find? fun b => b.fits ((c :: cs).take b.size) with
    | some b => some (b.replaced insert ((c :: cs).take b.size) ++ (c :: cs).drop b.size)
    | none => (applyAnywhere? branches insert cs).map (c :: ·)

def Rule.apply? (r : Rule) (t : Text) : Option Text :=
  let (word, feed) := splitFinalFeed t
  match r.place with
  | .whole => (r.branches.findSome? fun b => b.applyToWhole? r.insert word).map (· ++ feed)
  | .ending => (r.branches.findSome? fun b => b.applyAtEnd? r.insert word).map (· ++ feed)
  | .last => r.branches.findSome? fun b => b.applyAtEnd? r.insert t
  | .anywhere => applyAnywhere? r.branches r.insert t

end Inflection

end UmlSchema
