import UmlSchema.Schema.Declaration
import UmlSchema.Schema.Header
import UmlSchema.Schema.Layout

/-! Documents: the declarations of all that a package owns, after a header. -/
namespace UmlSchema

variable [Platform]

namespace Declarer

def trace (d : Declarer) (what : String) (e : ElementId) : Emission Unit :=
  if d.options.debug then Emission.debug .documents (what ++ (d.nameOf e).text) else pure ()

def traceNothing (d : Declarer) (what : Text) : Emission Unit :=
  if d.options.debug then Emission.debug .documents ("Nothing generated for " ++ what) else pure ()

/-- The declaration of one element, followed by an empty line. Abstract classes and elements of
other kinds have none. -/
def single (d : Declarer) (e : ElementId) : Emission Unit := do
  match (d.element e).kind with
  | .klass =>
    if !d.isAbstract (.ref e) then
      d.trace "Class generate " e
      d.klass e
      Emission.emptyLine
  | .primitiveType =>
    d.trace "Scalar generate " e
    d.scalar e
    Emission.emptyLine
  | .interface =>
    d.trace "Interface generate " e
    d.interface e
    Emission.emptyLine
  | .enumeration =>
    d.trace "Enumeration generate " e
    d.enumeration e
    Emission.emptyLine
  | kind => d.traceNothing kind.label

def isContainer (e : Element) : Bool := e.isA .project || e.isA .package

/-- Only elements are declared; the letters of a text are passed over. -/
def declareWithin (d : Declarer) : Nat → Value → Emission Unit
  | 0, _ => pure ()
  | n + 1, .ref e => do
    if isContainer (d.element e) then
      let owned ← d.model.members (d.element e).owned
      Emission.each owned (d.declareWithin n)
    else d.single e
  | _ + 1, _ => d.traceNothing "str"

def declare (d : Declarer) (e : ElementId) : Emission Unit :=
  d.declareWithin (d.model.size + 1) (.ref e)

def header (d : Declarer) (text : Text) : Emission Unit := do
  d.doc text
  Emission.emptyLine

end Declarer

def documentEvents (d : Declarer) (header : Option Text) (e : ElementId) : Emission Unit := do
  if let some text := header then d.header text
  d.declare e

structure Rendering where
  text : Text
  warnings : List Warning
  deriving DecidableEq, Repr

inductive RenderFault where
  | model (fault : ModelFault)
  | indentation (fault : IndentFault)
  | header (fault : HeaderFault)
  deriving DecidableEq, Repr

/-- All that a rendering run did, and what it came to. -/
structure RenderRun where
  events : List Event
  result : Except RenderFault Rendering

def renderingOf (indent : Text) (events : List Event) : Rendering :=
  ⟨renderLines indent (placedLines 0 events), warningsOf events⟩

/-- The header of the model that an element belongs to, if a template choice is given. -/
def headerOf (m : Model) (e : ElementId) :
    Option (Option Template) → Except RenderFault (Option Text)
  | none => .ok none
  | some template => do
    let root ← (m.root e).mapError .model
    let text ← (headerText template m root).mapError .header
    return some text

def layoutOf (m : Model) (o : Options) (header : Option (Option Template)) (e : ElementId) :
    Except RenderFault (Text × Option Text) := do
  let indent ← o.indentString.mapError .indentation
  let text ← headerOf m e header
  return (indent, text)

def renderWith (r : Repository) (o : Options) (header : Option (Option Template)) (e : ElementId) :
    RenderRun :=
  match layoutOf r.model o header e with
  | .error fault => ⟨[], .error fault⟩
  | .ok (indent, text) =>
    let run := documentEvents ⟨r, o⟩ text e
    ⟨run.events, match run.result with
      | .ok () => .ok (renderingOf indent run.events)
      | .error fault => .error (.model fault)⟩

/-- Renders an element over the relationships of the model that it belongs to. -/
def render (m : Model) (o : Options) (header : Option (Option Template)) (e : ElementId) :
    RenderRun :=
  match Repository.around m e with
  | .error fault => ⟨[], .error (.model fault)⟩
  | .ok r => renderWith r o header e

end UmlSchema
