import UmlSchema.Model.Shown
import UmlSchema.Platform.Basic
import UmlSchema.Platform.Name
import UmlSchema.Text.Blank
import UmlSchema.Text.Lines

/-! Plain templates: literal text, and placeholders for fields of the model's root. A text that asks
for more than that is refused. -/
namespace UmlSchema

inductive TemplatePart where
  | literal (t : Text)
  /-- The value of a field, or nothing where the root has no such field. -/
  | field (label : Text)
  deriving DecidableEq, Repr

abbrev PlainTemplate := List TemplatePart

namespace PlainTemplate

def fieldText (m : Model) (root : ElementId) (label : Text) : Text :=
  match Field.ofLabel? label with
  | none => []
  | some f =>
    match (m.element root).get? f with
    | some v => (m.shownValue root f v).text
    | none => []

def fill (m : Model) (root : ElementId) (t : PlainTemplate) : Text :=
  t.flatMap fun
    | .literal t => t
    | .field label => fieldText m root label

def projectMark : Text := "project."

def placeholder (inside : Text) : Except Text TemplatePart :=
  let term := inside.trim
  let label := term.drop projectMark.length
  if term.startsWith projectMark ∧ NameFault.of? (.text label) = none then .ok (.field label)
  else .error ("cannot evaluate " ++ term.quoted)

def addLiteral (c : CodePoint) : PlainTemplate → PlainTemplate
  | .literal t :: ps => .literal (c :: t) :: ps
  | ps => .literal [c] :: ps

/-- Cuts a text at the placeholders, which stand between double braces. `inside` is what has been
read of an open one, last code point first. -/
def partsFrom (inside : Option Text) : Text → Except Text PlainTemplate
  | [] =>
    match inside with
    | none => .ok []
    | some _ => .error "unexpected end of template"
  | [c] =>
    match inside with
    | none => .ok [.literal [c]]
    | some _ => .error "unexpected end of template"
  | c :: d :: rest =>
    match inside with
    | none =>
      if c = .scalar '\x7b' ∧ d = .scalar '\x7b' then partsFrom (some []) rest
      else if c = .scalar '\x7b' ∧ (d = .scalar '%' ∨ d = .scalar '#') then
        .error "statements and comments are not known"
      else do return addLiteral c (← partsFrom none (d :: rest))
    | some before =>
      if c = .scalar '\x7d' ∧ d = .scalar '\x7d' then do
        let part ← placeholder before.reverse
        return part :: (← partsFrom none rest)
      else partsFrom (some (c :: before)) (d :: rest)

/-- Line ends are made uniform and one final line feed is dropped. -/
def ofText (t : Text) : Except Text PlainTemplate :=
  let t := t.uniformLineEnds
  partsFrom none (if t.getLast? = some .lineFeed then t.dropLast else t)

def ofBytes (content : Bytes) : Template := fun m root => do
  let text ← (Utf8.decode content).mapError .encoding
  let parts ← (ofText text).mapError .filling
  return parts.fill m root

/-- What cannot be read in a directory is not there. -/
def find? (fs : FileSystem) (directory : Path) (name : Text) : Option Template :=
  match fs.read (directory.child name).render with
  | .ok content => some (ofBytes content)
  | .error _ => none

end PlainTemplate

end UmlSchema
