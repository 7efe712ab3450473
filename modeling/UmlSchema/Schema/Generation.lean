import UmlSchema.Banner
import UmlSchema.Files.AtomicWrite
import UmlSchema.Schema.Document

/-! Generation runs: previews of single elements, and documents written to a file. -/
namespace UmlSchema

def templateName : Text := "header.graphql.j2"

/-- A template directory that cannot be looked up at all. -/
structure TemplateFault where
  path : Text
  cause : FileFault
  deriving DecidableEq, Repr

def TemplateFault.message (f : TemplateFault) : Text := f.cause.message ++ ": " ++ f.path.quoted

variable [Platform]

/-- The header template of a run. What is no directory holds none. -/
def Options.template (o : Options) (fs : FileSystem) : Except TemplateFault (Option Template) :=
  match o.templateDir with
  | none => .ok none
  | some directory =>
    let path := Path.ofText directory
    if path.render.pathFault?.isSome then .ok none
    else match fs.status path.render with
      | .error .nameTooLong => .error ⟨path.render, .nameTooLong⟩
      | .ok .directory => .ok (Platform.template? fs path templateName)
      | _ => .ok none

def preview (m : Model) (o : Options) (e : ElementId) : RenderRun :=
  let start : List Event :=
    if o.debug then
      (Emission.debug .documents ("generate_string " ++ (m.shownName e).text)).events
    else []
  let run := render m o none e
  ⟨start ++ run.events, run.result⟩

inductive GenerationFault where
  | template (fault : TemplateFault)
  | rendering (fault : RenderFault)
  | destination (fault : PathFault)
  | output (path : Text) (cause : WriteCause)
  deriving DecidableEq, Repr

structure Generated where
  text : Text
  path : Text
  warnings : List Warning
  deriving DecidableEq, Repr

structure GenerationRun where
  records : List LogRecord
  result : Except GenerationFault Generated
  files : FileSystem

def save (fs : FileSystem) (faults : Faults) (banners : List Text) (path : Path) (r : Rendering) :
    Except GenerationFault Generated × FileSystem :=
  match path.render.pathFault? with
  | some fault => (.error (.destination fault), fs)
  | none =>
    let text := addBanners banners r.text
    match fs.writeWhole faults path text with
    | (.ok (), files) => (.ok ⟨text, path.render, r.warnings⟩, files)
    | (.error cause, files) => (.error (.output path.render cause), files)

/-- Renders an element with a header and saves the document. Nothing is written if the model is at
fault. -/
def generate (fs : FileSystem) (faults : Faults) (m : Model) (e : ElementId) (o : Options)
    (banners : List Text) (destination : Text) : GenerationRun :=
  match o.template fs with
  | .error fault => ⟨[], .error (.template fault), fs⟩
  | .ok template =>
    let run := render m o (some template) e
    let records := recordsOf run.events
    match run.result with
    | .error fault => ⟨records, .error (.rendering fault), fs⟩
    | .ok rendering =>
      let path := Path.ofText destination
      let saving : List LogRecord :=
        if o.debug then [⟨.debug, .documents, "Saving to " ++ path.render⟩] else []
      let (result, files) := save fs faults banners path rendering
      ⟨records ++ saving, result, files⟩

end UmlSchema
