import UmlSchema.Text.Utf8

/-! Paths as octets. A path is stored in UTF-8. An octet that is not part of a character is written
as one of the surrogates U+DC80 to U+DCFF, so that all octets have a written form. Other surrogates
and the zero octet cannot stand in a path. -/
namespace UmlSchema

namespace CodePoint

/-- The octet that a surrogate stands for in a path. -/
def strayOctet? (c : CodePoint) : Option UInt8 :=
  if 0xDC80 ≤ c.toNat ∧ c.toNat ≤ 0xDCFF then some (UInt8.ofNat (c.toNat - 0xDC00)) else none

def ofStrayOctet (b : UInt8) : CodePoint := ofNat (0xDC00 + b.toNat)

def pathOctets (c : CodePoint) : Bytes :=
  match c.strayOctet? with
  | some b => [b]
  | none => Utf8.encodeCodePoint c

end CodePoint

inductive PathFault where
  | encoding (fault : EncodeFault)
  | zeroOctet
  deriving DecidableEq, Repr

def PathFault.message : PathFault → Text
  | encoding f => f.message
  | zeroOctet => "embedded null byte"

namespace Text

def pathOctets (t : Text) : Bytes := t.flatMap CodePoint.pathOctets

/-- The first surrogate that stands for no octet, with those that follow it. -/
def pathEncodeFault? (t : Text) : Option EncodeFault :=
  match t.dropWhile fun c => !c.isSurrogate || c.strayOctet?.isSome with
  | [] => none
  | c :: rest =>
    let first := t.length - (rest.length + 1)
    some ⟨first, first + (rest.takeWhile (·.isSurrogate)).length, c⟩

def pathFault? (t : Text) : Option PathFault :=
  match t.pathEncodeFault? with
  | some fault => some (.encoding fault)
  | none => if t.contains (.ofNat 0) then some .zeroOctet else none

/-- The written form of octets. A fault takes one octet at least, so their number is budget
enough. -/
def ofPathOctetsWithin : Nat → Bytes → Text
  | 0, _ => []
  | n + 1, bs =>
    match Utf8.decode bs with
    | .ok t => t
    | .error f =>
      let before := (Utf8.decode (bs.take f.first)).toOption.getD []
      let stray := (bs.take (f.last + 1)).drop f.first
      before ++ stray.map .ofStrayOctet ++ ofPathOctetsWithin n (bs.drop (f.last + 1))

/-- The form in which a name is found again: stray octets that make up a character become it. -/
def storedName (t : Text) : Text := ofPathOctetsWithin (t.pathOctets.length + 1) t.pathOctets

end Text

end UmlSchema
