import UmlSchema.Number.Binary
import UmlSchema.Text.Basic

/-! The decimal text of a binary number: the fewest digits that read back as the same number, and
of those the nearest to it. -/
namespace UmlSchema.Binary

/-- The place of the decimal point of a positive quotient: the least `p` with
`num / den < 10 ^ p`. -/
private def pointPlace (num den : Nat) : Int :=
  if den ≤ num then (Nat.toDigits 10 (num / den)).length
  else
    match (List.range 400).find? fun j => den ≤ num * Nat.pow 10 (j + 1) with
    | some j => -(j : Int)
    | none => -400

private def tenfold (num den : Nat) (p : Int) : Nat × Nat :=
  if 0 ≤ p then (num, den * Nat.pow 10 p.toNat) else (num * Nat.pow 10 (-p).toNat, den)

/-- A neighbour on the decimal grid of step `10 ^ p` that lies in the interval rounding to the
number; the interval's ends belong to it when the significand is even. -/
private def gridPoint? (m : Nat) (low : Nat) (num den : Nat) (p : Int) : Option Nat :=
  let (n, d) := tenfold num den p
  let inside (x : Nat) : Bool :=
    let above := (4 * m - low) * n
    let below := (4 * m + 2) * n
    let point := 4 * m * (x * d)
    if m % 2 = 0 then above ≤ point && point ≤ below else above < point && point < below
  let x := n / d
  let r := n % d
  match inside x, inside (x + 1) with
  | true, true =>
    if 2 * r < d then some x else if d < 2 * r then some (x + 1)
    else some (if x % 2 = 0 then x else x + 1)
  | true, false => some x
  | false, true => some (x + 1)
  | false, false => none

def shortest (m : Nat) (e : Int) : Nat × Int :=
  let (num, den) : Nat × Nat :=
    if 0 ≤ e then (m * Nat.pow 2 e.toNat, 1) else (m, Nat.pow 2 (-e).toNat)
  let low := if m = Nat.pow 2 52 ∧ leastExponent < e then 1 else 2
  let place := pointPlace num den
  let hit := (List.range 17).findSome? fun k =>
    let p := place - (k + 1 : Nat)
    (gridPoint? m low num den p).map fun x => (x, p)
  hit.getD (m, 0)

private def zeros (n : Nat) : String := String.ofList (List.replicate n '0')

/-- Positional from 0.0001 up to sixteen places before the point; outside of that one digit, the
others after a point, and an exponent with a sign and at least two digits. -/
def render : Binary → Text
  | nan => "nan"
  | infinite s => if s then "-inf" else "inf"
  | finite s m e =>
    let sign := if s then "-" else ""
    if m = 0 then sign ++ "0.0"
    else
      let (x, p) := shortest m e
      let ds := (x.repr.toList.reverse.dropWhile (· == '0')).reverse
      let place : Int := (x.repr.length : Int) + p
      let digits := String.ofList ds
      if place < -3 ∨ 16 < place then
        let exponent := place - 1
        let tail := String.ofList (ds.drop 1)
        let body := String.ofList (ds.take 1) ++ (if tail.isEmpty then "" else "." ++ tail)
        let size := exponent.natAbs.repr
        sign ++ body ++ "e" ++ (if exponent < 0 then "-" else "+")
          ++ (if size.length < 2 then "0" ++ size else size)
      else if place ≤ 0 then sign ++ "0." ++ zeros (-place).toNat ++ digits
      else if (ds.length : Int) ≤ place then
        sign ++ digits ++ zeros (place.toNat - ds.length) ++ ".0"
      else
        sign ++ String.ofList (ds.take place.toNat) ++ "." ++ String.ofList (ds.drop place.toNat)

end UmlSchema.Binary
