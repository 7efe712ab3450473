import UmlSchema.Report.Emission
import UmlSchema.Text.Blank
import UmlSchema.Text.Lines

/-! Doc blocks: the lines of a text between two triple quotes. -/
namespace UmlSchema

def docMark : Text := "\x22\x22\x22"

/-- The lines of a doc block. Blank lines are dropped, other lines are kept as they are after the
text has been trimmed; a text that then begins with a blank line has no block. -/
def docBlock (t : Text) : List Text :=
  let lines := t.trim.lines
  if (lines.headD []).isBlank then []
  else docMark :: lines.filter (!·.isBlank) ++ [docMark]

namespace Emission

def doc (enabled : Bool) (t : Text) : Emission Unit :=
  emitAll (if enabled then (docBlock t).map .line else [])

end Emission

end UmlSchema
