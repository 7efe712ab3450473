/-! Texts as lists of code points.
A code point is a Unicode scalar value or a lone surrogate. Surrogates are kept because a JSON
escape can name one; they have no encoded form, so such a text can be held and compared but not
stored. -/
namespace UmlSchema

inductive CodePoint where
  | scalar (c : Char)
  | surrogate (u : Fin 2048)
  deriving DecidableEq, Repr, Inhabited

namespace CodePoint

instance : Coe Char CodePoint := ⟨scalar⟩

def toNat : CodePoint → Nat
  | scalar c => c.toNat
  | surrogate u => 0xD800 + u.val

/-- The code point of a number below 0x110000; a number above that range gives a space. -/
def ofNat (n : Nat) : CodePoint :=
  if h : 0xD800 ≤ n ∧ n < 0xE000 then surrogate ⟨n - 0xD800, by omega⟩
  else if n < 0x110000 then scalar (Char.ofNat n)
  else scalar ' '

def isSurrogate : CodePoint → Bool
  | scalar _ => false
  | surrogate _ => true

def inRanges (ranges : List (Nat × Nat)) (c : CodePoint) : Bool :=
  ranges.any fun r => r.1 ≤ c.toNat && c.toNat ≤ r.2

end CodePoint

abbrev Text := List CodePoint

namespace Text

def ofString (s : String) : Text := s.toList.map .scalar

instance : Coe String Text := ⟨ofString⟩

def ofNat (n : Nat) : Text := ofString n.repr

def ofInt (n : Int) : Text :=
  if n < 0 then "-" ++ ofNat n.natAbs else ofNat n.natAbs

/-- Separates at every occurrence of a code point; the result is never empty. -/
def splitOn (mark : CodePoint) : Text → List Text
  | [] => [[]]
  | c :: cs =>
    if c = mark then [] :: splitOn mark cs
    else
      match splitOn mark cs with
      | [] => [[c]]
      | first :: others => (c :: first) :: others

def joinWith (mark : Text) (parts : List Text) : Text := List.intercalate mark parts

def repeated (t : Text) : Nat → Text
  | 0 => []
  | n + 1 => t ++ repeated t n

def startsWith (t start : Text) : Bool := start.isPrefixOf t

def endsWith (t ending : Text) : Bool := ending.isSuffixOf t

/-- The string of a text; a lone surrogate, which a string cannot hold, becomes U+FFFD. -/
def toString (t : Text) : String :=
  String.ofList (t.map fun
    | .scalar c => c
    | .surrogate _ => Char.ofNat 0xFFFD)

end Text

end UmlSchema
