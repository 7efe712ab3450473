import UmlSchema.Report.Emission
import UmlSchema.Text.Lines

/-! Layout: from events to lines at a depth, and from those to text. -/
namespace UmlSchema

structure PlacedLine where
  depth : Nat
  content : Text
  deriving DecidableEq, Repr

/-- The depth after some events. Going out at depth zero changes nothing. -/
def depthAfter (depth : Nat) : List Event → Nat
  | [] => depth
  | .indent :: es => depthAfter (depth + 1) es
  | .outdent :: es => depthAfter (depth - 1) es
  | _ :: es => depthAfter depth es

def placedLines (depth : Nat) : List Event → List PlacedLine
  | [] => []
  | .line content :: es => ⟨depth, content⟩ :: placedLines depth es
  | .indent :: es => placedLines (depth + 1) es
  | .outdent :: es => placedLines (depth - 1) es
  | _ :: es => placedLines depth es

/-- Empty lines carry no indentation. -/
def PlacedLine.render (indent : Text) (l : PlacedLine) : Text :=
  if l.content.isEmpty then [] else indent.repeated l.depth ++ l.content

def renderLines (indent : Text) (ls : List PlacedLine) : Text :=
  Text.unlines (ls.map (PlacedLine.render indent))

end UmlSchema
