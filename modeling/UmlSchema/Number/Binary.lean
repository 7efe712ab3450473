/-! Binary floating-point numbers with 53 significant bits, held exactly.
A finite number is its significand times a power of two, in the one form whose significand has
53 bits or whose exponent is the least one. -/
namespace UmlSchema

inductive Binary where
  | nan
  | infinite (negative : Bool)
  | finite (negative : Bool) (significand : Nat) (exponent : Int)
  deriving DecidableEq, Repr

namespace Binary

def leastExponent : Int := -1074

def greatestExponent : Int := 971

/-- The nearest natural number to a quotient; a half goes to the even neighbour. -/
def roundQuotient (num den : Nat) : Nat :=
  let q := num / den
  let r := num % den
  if 2 * r < den then q
  else if den < 2 * r then q + 1
  else if q % 2 = 0 then q
  else q + 1

private def scaled (num den : Nat) (e : Int) : Nat × Nat :=
  if 0 ≤ e then (num, den * Nat.pow 2 e.toNat) else (num * Nat.pow 2 (-e).toNat, den)

def ofQuotient (negative : Bool) (num den : Nat) : Binary :=
  let guess : Int := (num.log2 : Int) - den.log2 - 52
  let (n, d) := scaled num den guess
  let e := max (if n / d < Nat.pow 2 52 then guess - 1 else guess) leastExponent
  let (n, d) := scaled num den e
  let m := roundQuotient n d
  let (m, e) := if m = Nat.pow 2 53 then (Nat.pow 2 52, e + 1) else (m, e)
  if greatestExponent < e then infinite negative else finite negative m e

/-- The nearest number to `digits * 10 ^ e`. Beyond 310 places before the point every number is
infinite, and beyond 330 places after it every number is zero. -/
def ofDecimal (negative : Bool) (digits : Nat) (e : Int) : Binary :=
  let places : Int := (Nat.toDigits 10 digits).length + e
  if digits = 0 ∨ places < -330 then finite negative 0 leastExponent
  else if 310 < places then infinite negative
  else if 0 ≤ e then ofQuotient negative (digits * Nat.pow 10 e.toNat) 1
  else ofQuotient negative digits (Nat.pow 10 (-e).toNat)

def isZero : Binary → Bool
  | finite _ m _ => m == 0
  | _ => false

/-- Numbers below zero; the two zeros are not. -/
def isNegative : Binary → Bool
  | nan => false
  | infinite s => s
  | finite s m _ => s && m != 0

private def withSign (negative : Bool) (n : Nat) : Int := if negative then -(n : Int) else n

def toInt? : Binary → Option Int
  | finite s m e =>
    if 0 ≤ e then some (withSign s (m * Nat.pow 2 e.toNat))
    else if m % Nat.pow 2 (-e).toNat = 0 then some (withSign s (m / Nat.pow 2 (-e).toNat))
    else none
  | _ => none

def truncate? : Binary → Option Int
  | finite s m e =>
    if 0 ≤ e then some (withSign s (m * Nat.pow 2 e.toNat))
    else some (withSign s (m / Nat.pow 2 (-e).toNat))
  | _ => none

end Binary

end UmlSchema
