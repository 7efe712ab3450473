import UmlSchema.Text.Basic

/-! Blank code points, and trimming by them. -/
namespace UmlSchema

namespace CodePoint

/-- The white space of the Unicode standard, with the four information separators.
U+180E, U+200B and U+FEFF are not in it. -/
def blankRanges : List (Nat × Nat) :=
  [(0x09, 0x0D), (0x1C, 0x20), (0x85, 0x85), (0xA0, 0xA0), (0x1680, 0x1680), (0x2000, 0x200A),
   (0x2028, 0x2029), (0x202F, 0x202F), (0x205F, 0x205F), (0x3000, 0x3000)]

def isBlank (c : CodePoint) : Bool := c.inRanges blankRanges

end CodePoint

namespace Text

def trimStart (t : Text) : Text := t.dropWhile (·.isBlank)

def trimEnd (t : Text) : Text := (t.reverse.dropWhile (·.isBlank)).reverse

def trim (t : Text) : Text := trimEnd (trimStart t)

def isBlank (t : Text) : Bool := t.all (·.isBlank)

end Text

end UmlSchema
