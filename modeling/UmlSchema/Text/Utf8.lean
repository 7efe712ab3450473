import UmlSchema.Text.Quoted

/-! Texts as UTF-8 octets. Encoding fails at a run of surrogates, decoding at an octet that no
character starts with, an octet that cannot continue one, or the end of the data inside one. -/
namespace UmlSchema

abbrev Bytes := List UInt8

/-- Surrogates from position `first` to position `last` have no encoded form. -/
structure EncodeFault where
  first : Nat
  last : Nat
  codePoint : CodePoint
  deriving DecidableEq, Repr

inductive DecodeCause where
  | invalidStart
  | invalidContinuation
  | unexpectedEnd
  deriving DecidableEq, Repr

structure DecodeFault where
  first : Nat
  last : Nat
  octet : UInt8
  cause : DecodeCause
  deriving DecidableEq, Repr

private def place (first last : Nat) : Text :=
  let range : Text :=
    if first = last then Text.ofNat first else Text.ofNat first ++ "-" ++ Text.ofNat last
  " in position " ++ range ++ ": "

def EncodeFault.message (f : EncodeFault) : Text :=
  let what : Text :=
    if f.first = f.last then "character '" ++ f.codePoint.numericEscape ++ "'" else "characters"
  "'utf-8' codec can't encode " ++ what ++ place f.first f.last ++ "surrogates not allowed"

def DecodeCause.message : DecodeCause → Text
  | invalidStart => "invalid start byte"
  | invalidContinuation => "invalid continuation byte"
  | unexpectedEnd => "unexpected end of data"

def DecodeFault.message (f : DecodeFault) : Text :=
  let what : Text :=
    if f.first = f.last then "byte 0x" ++ CodePoint.hexDigits 2 f.octet.toNat else "bytes"
  "'utf-8' codec can't decode " ++ what ++ place f.first f.last ++ f.cause.message

namespace Utf8

private def octet (n : Nat) : UInt8 := UInt8.ofNat n

def encodeChar (c : Char) : Bytes :=
  let n := c.toNat
  if n < 0x80 then [octet n]
  else if n < 0x800 then [octet (0xC0 + n / 64), octet (0x80 + n % 64)]
  else if n < 0x10000 then
    [octet (0xE0 + n / 4096), octet (0x80 + n / 64 % 64), octet (0x80 + n % 64)]
  else
    [octet (0xF0 + n / 262144), octet (0x80 + n / 4096 % 64), octet (0x80 + n / 64 % 64),
     octet (0x80 + n % 64)]

def encodeFault? (t : Text) : Option EncodeFault :=
  match t.dropWhile (!·.isSurrogate) with
  | [] => none
  | c :: rest =>
    let first := t.length - (rest.length + 1)
    some ⟨first, first + (rest.takeWhile (·.isSurrogate)).length, c⟩

def encodeCodePoint : CodePoint → Bytes
  | .scalar c => encodeChar c
  | .surrogate _ => []

def encode (t : Text) : Except EncodeFault Bytes :=
  match encodeFault? t with
  | some fault => .error fault
  | none => .ok (t.flatMap encodeCodePoint)

/-- How many octets follow a first octet, and the range of the one right after it. -/
def lead? (b : Nat) : Option (Nat × Nat × Nat) :=
  if b < 0x80 then some (0, 0x80, 0xBF)
  else if b < 0xC2 then none
  else if b < 0xE0 then some (1, 0x80, 0xBF)
  else if b = 0xE0 then some (2, 0xA0, 0xBF)
  else if b = 0xED then some (2, 0x80, 0x9F)
  else if b < 0xF0 then some (2, 0x80, 0xBF)
  else if b = 0xF0 then some (3, 0x90, 0xBF)
  else if b < 0xF4 then some (3, 0x80, 0xBF)
  else if b = 0xF4 then some (3, 0x80, 0x8F)
  else none

/-- A character in the making: where it starts, its first octet, its bits so far, the octets still
owed and the range of the next one. -/
structure Pending where
  start : Nat
  first : UInt8
  bits : Nat
  owed : Nat
  low : Nat
  high : Nat

private def leadBits (b owed : Nat) : Nat :=
  match owed with
  | 0 => b
  | 1 => b % 32
  | 2 => b % 16
  | _ => b % 8

/-- Decodes from a position on; `before` holds the code points found so far, last one first. -/
private def decodeFrom (position : Nat) (pending : Option Pending) (before : Text) :
    Bytes → Except DecodeFault Text
  | [] =>
    match pending with
    | none => .ok before.reverse
    | some p => .error ⟨p.start, position - 1, p.first, .unexpectedEnd⟩
  | b :: rest =>
    match pending with
    | none =>
      match lead? b.toNat with
      | none => .error ⟨position, position, b, .invalidStart⟩
      | some (0, _, _) => decodeFrom (position + 1) none (CodePoint.ofNat b.toNat :: before) rest
      | some (owed, low, high) =>
        decodeFrom (position + 1) (some ⟨position, b, leadBits b.toNat owed, owed, low, high⟩)
          before rest
    | some p =>
      if p.low ≤ b.toNat ∧ b.toNat ≤ p.high then
        let bits := p.bits * 64 + b.toNat % 64
        if p.owed = 1 then decodeFrom (position + 1) none (CodePoint.ofNat bits :: before) rest
        else
          decodeFrom (position + 1) (some ⟨p.start, p.first, bits, p.owed - 1, 0x80, 0xBF⟩)
            before rest
      else .error ⟨p.start, position - 1, p.first, .invalidContinuation⟩

def decode (bs : Bytes) : Except DecodeFault Text := decodeFrom 0 none [] bs

end Utf8

end UmlSchema
