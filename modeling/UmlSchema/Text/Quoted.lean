import UmlSchema.Text.Printable

/-! A text in quotes, as messages show it. -/
namespace UmlSchema

namespace CodePoint

def hexDigits (width n : Nat) : Text :=
  (List.range width).reverse.map fun i => .scalar (Nat.digitChar (n / Nat.pow 16 i % 16))

/-- The shortest of the three numeric escapes that can name the code point. -/
def numericEscape (c : CodePoint) : Text :=
  let n := c.toNat
  if n < 0x100 then "\\x" ++ hexDigits 2 n
  else if n < 0x10000 then "\\u" ++ hexDigits 4 n
  else "\\U" ++ hexDigits 8 n

def quotedWith (mark c : CodePoint) : Text :=
  if c = mark ∨ c = .scalar '\\' then [.scalar '\\', c]
  else if c = .scalar '\n' then "\\n"
  else if c = .scalar '\r' then "\\r"
  else if c = .scalar '\t' then "\\t"
  else if c.isPrintable then [c]
  else c.numericEscape

end CodePoint

/-- Single quotes, unless the text has a single quote and no double one. -/
def Text.quoted (t : Text) : Text :=
  let mark : CodePoint :=
    if .scalar '\x27' ∈ t ∧ .scalar '\x22' ∉ t then .scalar '\x22' else .scalar '\x27'
  mark :: t.flatMap (CodePoint.quotedWith mark) ++ [mark]

end UmlSchema
