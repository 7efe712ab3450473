import UmlSchema.Text.Basic

/-! Lines of a text. Model and schema texts are cut at line feeds only; a reader's count of lines
breaks at every line boundary of the Unicode standard. -/
namespace UmlSchema

namespace CodePoint

def lineFeed : CodePoint := scalar '\n'

def carriageReturn : CodePoint := scalar '\r'

def lineBreakRanges : List (Nat × Nat) :=
  [(0x0A, 0x0D), (0x1C, 0x1E), (0x85, 0x85), (0x2028, 0x2029)]

def isLineBreak (c : CodePoint) : Bool := c.inRanges lineBreakRanges

end CodePoint

namespace Text

def lines (t : Text) : List Text := t.splitOn .lineFeed

def unlines (ls : List Text) : Text := joinWith [.lineFeed] ls

/-- How many lines a reader sees: a break ends a line, a carriage return with its line feed is one
break, and text after the last break is a line too. -/
def lineCount : Text → Nat
  | [] => 0
  | [_] => 1
  | c :: d :: rest =>
    if c = .carriageReturn ∧ d = .lineFeed then lineCount rest + 1
    else if c.isLineBreak then lineCount (d :: rest) + 1
    else lineCount (d :: rest)

def uniformLineEnds : Text → Text
  | [] => []
  | [c] => [if c = .carriageReturn then .lineFeed else c]
  | c :: d :: rest =>
    if c = .carriageReturn then
      if d = .lineFeed then .lineFeed :: uniformLineEnds rest
      else .lineFeed :: uniformLineEnds (d :: rest)
    else c :: uniformLineEnds (d :: rest)

end Text

end UmlSchema
