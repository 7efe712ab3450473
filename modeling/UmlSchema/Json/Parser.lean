import UmlSchema.Json.Basic
import UmlSchema.Text.Digit
import UmlSchema.Text.Lines

/-! Reading JSON text. `NaN`, `Infinity` and `-Infinity` are numbers too, and of members with one
name the last value counts, at the place of the first. A syntax error has a cause and an offset. -/
namespace UmlSchema.Json

inductive SyntaxCause where
  | byteOrderMark
  | expectedValue
  | expectedName
  | expectedColon
  | expectedComma
  | extraData
  | unterminatedString
  | controlCharacter
  | invalidEscape
  | invalidUnicodeEscape
  | tooManyDigits (count : Nat)
  deriving DecidableEq, Repr

structure SyntaxError where
  cause : SyntaxCause
  offset : Nat
  deriving DecidableEq, Repr

structure Cursor where
  rest : Text
  offset : Nat

private def failAt {α : Type} (cause : SyntaxCause) (offset : Nat) : Except SyntaxError α :=
  .error ⟨cause, offset⟩

private def skip (n : Nat) (c : Cursor) : Cursor := ⟨c.rest.drop n, c.offset + n⟩

def isSpace (c : CodePoint) : Bool :=
  c = .scalar ' ' || c = .scalar '\t' || c = .scalar '\n' || c = .scalar '\r'

private def skipSpace (c : Cursor) : Cursor := skip (c.rest.takeWhile isSpace).length c

private def hexValue? : CodePoint → Option Nat
  | .surrogate _ => none
  | .scalar c =>
    if '0' ≤ c ∧ c ≤ '9' then some (c.toNat - '0'.toNat)
    else if 'a' ≤ c ∧ c ≤ 'f' then some (c.toNat - 'a'.toNat + 10)
    else if 'A' ≤ c ∧ c ≤ 'F' then some (c.toNat - 'A'.toNat + 10)
    else none

private def hexUnit? (a b c d : CodePoint) : Option Nat := do
  let a ← hexValue? a
  let b ← hexValue? b
  let c ← hexValue? c
  let d ← hexValue? d
  return ((a * 16 + b) * 16 + c) * 16 + d

private def simpleEscape? : CodePoint → Option CodePoint
  | .scalar '\x22' => some (.scalar '\x22')
  | .scalar '\\' => some (.scalar '\\')
  | .scalar '/' => some (.scalar '/')
  | .scalar 'b' => some (CodePoint.ofNat 8)
  | .scalar 'f' => some (CodePoint.ofNat 12)
  | .scalar 'n' => some (.scalar '\n')
  | .scalar 'r' => some (.scalar '\r')
  | .scalar 't' => some (.scalar '\t')
  | _ => none

/-- Adds a code unit from an escape. A low surrogate joins a high one from the escape right before
it; `afterEscape` says whether the last code point came from an escape. -/
private def addUnit (found : Text) (afterEscape : Bool) (unit : Nat) : Text :=
  match found with
  | .surrogate u :: before =>
    if afterEscape ∧ u.val < 0x400 ∧ 0xDC00 ≤ unit ∧ unit < 0xE000 then
      CodePoint.ofNat (0x10000 + u.val * 0x400 + (unit - 0xDC00)) :: before
    else CodePoint.ofNat unit :: found
  | _ => CodePoint.ofNat unit :: found

/-- The body of a string that starts at `start`; `found` holds its code points, last one first. -/
private def stringBody (start : Nat) (found : Text) (afterEscape : Bool) (offset : Nat) :
    Text → Except SyntaxError (Text × Cursor)
  | [] => failAt .unterminatedString start
  | .scalar '\x22' :: rest => .ok (found.reverse, ⟨rest, offset + 1⟩)
  | .scalar '\\' :: [] => failAt .unterminatedString start
  | .scalar '\\' :: .scalar 'u' :: a :: b :: c :: d :: e :: rest =>
    match hexUnit? a b c d with
    | some unit => stringBody start (addUnit found afterEscape unit) true (offset + 6) (e :: rest)
    | none => failAt .invalidUnicodeEscape (offset + 1)
  | .scalar '\\' :: .scalar 'u' :: _ => failAt .invalidUnicodeEscape (offset + 1)
  | .scalar '\\' :: c :: rest =>
    match simpleEscape? c with
    | some c => stringBody start (c :: found) false (offset + 2) rest
    | none => failAt .invalidEscape offset
  | c :: rest =>
    if c.toNat < 0x20 then failAt .controlCharacter offset
    else stringBody start (c :: found) false (offset + 1) rest

private def isAsciiDigit (c : CodePoint) : Bool :=
  match c with
  | .scalar c => '0' ≤ c && c ≤ '9'
  | .surrogate _ => false

private def decimal (ds : Text) : Nat :=
  ds.foldl (fun n d => n * 10 + (d.toNat - '0'.toNat)) 0

/-- The digits before the point: a zero alone, or a run that starts with another digit. -/
private def wholeDigits (t : Text) : Text :=
  match t with
  | .scalar '0' :: _ => [.scalar '0']
  | _ => t.takeWhile isAsciiDigit

private def fractionDigits : Text → Text
  | .scalar '.' :: rest => rest.takeWhile isAsciiDigit
  | _ => []

/-- The exponent and the length of its text; a mark without digits is no exponent. -/
private def exponentPart (t : Text) : Option (Int × Nat) :=
  match t with
  | .scalar m :: rest =>
    if m = 'e' ∨ m = 'E' then
      let (sign, signLength, rest) : Int × Nat × Text :=
        match rest with
        | .scalar '-' :: r => (-1, 1, r)
        | .scalar '+' :: r => (1, 1, r)
        | r => (1, 0, r)
      let ds := rest.takeWhile isAsciiDigit
      if ds.isEmpty then none else some (sign * decimal ds, 1 + signLength + ds.length)
    else none
  | _ => none

private def number (c : Cursor) : Except SyntaxError (Json × Cursor) :=
  let (negative, signLength) : Bool × Nat :=
    match c.rest with
    | .scalar '-' :: _ => (true, 1)
    | _ => (false, 0)
  let body := c.rest.drop signLength
  let whole := wholeDigits body
  if whole.isEmpty then failAt .expectedValue c.offset
  else
    let afterWhole := body.drop whole.length
    let fraction := fractionDigits afterWhole
    let fractionLength := if fraction.isEmpty then 0 else fraction.length + 1
    let exponent := exponentPart (afterWhole.drop fractionLength)
    let size := signLength + whole.length + fractionLength + (exponent.map (·.2)).getD 0
    if fraction.isEmpty ∧ exponent.isNone then
      if Text.mostDigits < whole.length then failAt (.tooManyDigits whole.length) c.offset
      else
        let n : Int := decimal whole
        .ok (int (if negative then -n else n), skip size c)
    else
      let e := (exponent.map (·.1)).getD 0 - fraction.length
      .ok (real (Binary.ofDecimal negative (decimal (whole ++ fraction)) e), skip size c)

private def words : List (Text × Json) :=
  [("null", null), ("true", bool true), ("false", bool false), ("NaN", real .nan),
   ("Infinity", real (.infinite false)), ("-Infinity", real (.infinite true))]

private def scalarValue (c : Cursor) : Except SyntaxError (Json × Cursor) :=
  match words.find? fun w => c.rest.startsWith w.1 with
  | some (word, value) => .ok (value, skip word.length c)
  | none => number c

mutual

/-- Reads one value. The budget bounds the number of steps; twice the length of the text and two
more is always enough. -/
private def value : Nat → Cursor → Except SyntaxError (Json × Cursor)
  | 0, c => failAt .expectedValue c.offset
  | n + 1, c =>
    match c.rest with
    | .scalar '\x22' :: rest => do
      let (t, c) ← stringBody c.offset [] false (c.offset + 1) rest
      return (str t, c)
    | .scalar '\x7b' :: _ =>
      let c := skipSpace (skip 1 c)
      match c.rest with
      | .scalar '\x7d' :: _ => .ok (obj [], skip 1 c)
      | _ => members n [] c
    | .scalar '[' :: _ =>
      let c := skipSpace (skip 1 c)
      match c.rest with
      | .scalar ']' :: _ => .ok (arr [], skip 1 c)
      | _ => items n [] c
    | _ => scalarValue c

private def items : Nat → List Json → Cursor → Except SyntaxError (Json × Cursor)
  | 0, _, c => failAt .expectedValue c.offset
  | n + 1, before, c => do
    let (item, c) ← value n c
    let c := skipSpace c
    match c.rest with
    | .scalar ']' :: _ => return (arr (item :: before).reverse, skip 1 c)
    | .scalar ',' :: _ => items n (item :: before) (skipSpace (skip 1 c))
    | _ => failAt .expectedComma c.offset

private def members : Nat → List (Text × Json) → Cursor → Except SyntaxError (Json × Cursor)
  | 0, _, c => failAt .expectedValue c.offset
  | n + 1, before, c => do
    match c.rest with
    | .scalar '\x22' :: rest =>
      let (name, c) ← stringBody c.offset [] false (c.offset + 1) rest
      let c := skipSpace c
      match c.rest with
      | .scalar ':' :: _ =>
        let (v, c) ← value n (skipSpace (skip 1 c))
        let c := skipSpace c
        let found := Table.put before name v
        match c.rest with
        | .scalar '\x7d' :: _ => return (obj found, skip 1 c)
        | .scalar ',' :: _ => members n found (skipSpace (skip 1 c))
        | _ => failAt .expectedComma c.offset
      | _ => failAt .expectedColon c.offset
    | _ => failAt .expectedName c.offset

end

def parse (t : Text) : Except SyntaxError Json := do
  if t.head? = some (CodePoint.ofNat 0xFEFF) then failAt .byteOrderMark 0
  else
    let (v, c) ← value (2 * t.length + 2) (skipSpace ⟨t, 0⟩)
    let c := skipSpace c
    if c.rest.isEmpty then return v else failAt .extraData c.offset

def SyntaxCause.message : SyntaxCause → Text
  | .byteOrderMark => "Unexpected UTF-8 BOM (decode using utf-8-sig)"
  | .expectedValue => "Expecting value"
  | .expectedName => "Expecting property name enclosed in double quotes"
  | .expectedColon => "Expecting ':' delimiter"
  | .expectedComma => "Expecting ',' delimiter"
  | .extraData => "Extra data"
  | .unterminatedString => "Unterminated string starting at"
  | .controlCharacter => "Invalid control character at"
  | .invalidEscape => "Invalid \\escape"
  | .invalidUnicodeEscape => "Invalid \\uXXXX escape"
  | .tooManyDigits count => "Number with " ++ Text.ofNat count ++ " digits"

def SyntaxError.message (e : SyntaxError) (source : Text) : Text :=
  let before := source.take e.offset
  let line := before.count .lineFeed + 1
  let column := (before.reverse.takeWhile (· ≠ .lineFeed)).length + 1
  e.cause.message ++ ": line " ++ Text.ofNat line ++ " column " ++ Text.ofNat column
    ++ " (char " ++ Text.ofNat e.offset ++ ")"

end UmlSchema.Json
