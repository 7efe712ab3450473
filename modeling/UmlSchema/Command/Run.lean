import UmlSchema.Command.Settings
import UmlSchema.Model.Lookup
import UmlSchema.Reading.Document
import UmlSchema.Schema.Generation
import UmlSchema.Text.Style

/-! Running the command line over a file system. -/
namespace UmlSchema

/-- What the program does not handle: the run ends without a message. -/
inductive Unhandled where
  | reading (fault : ReadFault)
  | rendering (fault : RenderFault)
  | template (fault : TemplateFault)
  | path (fault : PathFault)
  | encoding (fault : EncodeFault)
  deriving DecidableEq, Repr

inductive Stop where
  | exit (code : Nat)
  | unhandled (fault : Unhandled)
  deriving DecidableEq, Repr

structure Console where
  out : Text := []
  err : Text := []
  files : FileSystem
  deriving DecidableEq, Repr

abbrev Session := ExceptT Stop (StateM Console)

structure Outcome where
  exitCode : Nat
  console : Console
  unhandled : Option Unhandled := none
  deriving DecidableEq, Repr

variable [Platform]

namespace Session

def stop {α : Type} (s : Stop) : Session α := throw s

def print (line : Text) : Session Unit := do
  let text := line.withoutStyles ++ "\n"
  if let some fault := Utf8.encodeFault? text then stop (.unhandled (.encoding fault))
  modify fun c => { c with out := c.out ++ text }

private def escapeSurrogates (t : Text) : Text :=
  t.flatMap fun c => if c.isSurrogate then c.numericEscape else [c]

/-- A line to the error stream. What has no encoded form is escaped. -/
def report (line : Text) : Session Unit :=
  modify fun c => { c with err := c.err ++ escapeSurrogates line ++ "\n" }

def complain (line : Text) : Session Unit := report line.withoutStyles

/-- Warnings always go to the error stream; other records only when debugging. -/
def log (debug : Bool) (records : List LogRecord) : Session Unit :=
  records.forM fun r =>
    if debug || r.level = .warning then report r.render else pure ()

private def usageLine : Option CommandKind → Text
  | none => "Usage: " ++ programName ++ " [OPTIONS] COMMAND [ARGS]..."
  | some k => "Usage: " ++ programName ++ " " ++ k.name ++ " [OPTIONS]"

private def helpHint : Option CommandKind → Text
  | none => "Try '" ++ programName ++ " --help' for help."
  | some k => "Try '" ++ programName ++ " " ++ k.name ++ " --help' for help."

def usageError {α : Type} (k : Option CommandKind) (message : Text) : Session α := do
  complain (usageLine k)
  complain (helpHint k)
  complain []
  complain ("Error: " ++ message)
  stop (.exit 2)

def argumentError {α : Type} (k : Option CommandKind) : ArgumentFault → Session α
  | .noSuchOption name => usageError k (ArgumentFault.noSuchOption name).message
  | fault => do
    complain ("Error: " ++ fault.message)
    stop (.exit 2)

private def showHelp {α : Type} (k : Option CommandKind) : Session α := do
  print (usageLine k)
  stop (.exit 0)

private def loadModel (s : Settings) : Session Document := do
  match Document.ofFile (← get).files s.model with
  | .ok d =>
    log s.options.debug [d.record s.model]
    return d
  | .error fault =>
    match fault.message? s.model with
    | some message =>
      complain ("Error: " ++ message)
      stop (.exit 1)
    | none => stop (.unhandled (.reading fault))

private def selectElement (k : CommandKind) (s : Settings) (d : Document) : Session ElementId :=
  match s.element with
  | none | some [] => pure d.root
  | some name =>
    match d.model.find? d.root name with
    | .ok (some e) => pure e
    | .ok none =>
      usageError (some k) ("Invalid value for --element: No element named " ++ name.quoted)
    | .error fault => stop (.unhandled (.rendering (.model fault)))

private def reportSuccess (s : Settings) (path : Path) (g : Generated) : Session Unit := do
  if s.verbose then
    print ("  Lines: " ++ Text.ofNat g.text.lineCount)
    print ("  Warnings: " ++ Text.ofNat g.warnings.length)
    g.warnings.forM fun w => complain ("  WARNING [" ++ w.element.text ++ "] " ++ w.message)
  print ("Done! Generated IDL in " ++ path.render)

/-- Where a run leads from and to. The destination is worked out last and may turn out to be no
path. -/
private def describe (s : Settings) (base : Text) (path : Path) : Session Unit := do
  let files := (← get).files
  print ("Model: " ++ files.resolve (.ofText s.model))
  print ("Base: " ++ base)
  if let some fault := path.render.pathFault? then stop (.unhandled (.path fault))
  print ("Output: " ++ files.resolve path)

private def runGenerate (s : Settings) : Session Unit := do
  print "Reading model..."
  let d ← loadModel s
  let base ← selectElement .generate s d
  if !Declarer.isContainer (d.model.element base) then
    usageError (some .generate) "Please select the project or a package"
  let name := (d.model.shownName base).text
  let path := match s.output with
    | none | some [] => Path.ofText ("schema_" ++ name ++ ".gql")
    | some output => Path.ofText output
  if s.verbose then describe s name path
  let banners := match s.header with
    | none | some [] => []
    | some header => [header]
  print "Generating IDL..."
  let run := generate (← get).files noFaults d.model base s.options banners path.render
  modify fun c => { c with files := run.files }
  log s.options.debug run.records
  match run.result with
  | .ok g => reportSuccess s path g
  | .error (.output path cause) =>
    complain ("Generation failed: Cannot write " ++ path ++ ": " ++ cause.message)
    stop (.exit 1)
  | .error (.template fault) => stop (.unhandled (.template fault))
  | .error (.rendering fault) => stop (.unhandled (.rendering fault))
  | .error (.destination fault) => stop (.unhandled (.path fault))

private def runPreview (s : Settings) : Session Unit := do
  let d ← loadModel s
  let e ← selectElement .preview s d
  if let .error fault := s.options.template (← get).files then
    stop (.unhandled (.template fault))
  let run := preview d.model s.options e
  log s.options.debug (recordsOf run.events)
  match run.result with
  | .ok rendering => print rendering.text
  | .error fault => stop (.unhandled (.rendering fault))

private def runCommand (k : CommandKind) (args : List Text) : Session Unit := do
  match Arguments.parse (commandSpecs k) true args with
  | .error fault => argumentError (some k) fault
  | .ok a =>
    if (a.value? .help).isSome then showHelp (some k)
    match Settings.ofArguments (← get).files k a with
    | .error (.badPath fault) => stop (.unhandled (.path fault))
    | .error fault => usageError (some k) fault.message
    | .ok s =>
      match k with
      | .generate => runGenerate s
      | .preview => runPreview s

/-- Handles the options before the command, and gives the words after them. Of help and version the
one given first is shown. -/
private def groupWords (args : List Text) : Session (List Text) := do
  match Arguments.parse groupSpecs false args with
  | .error fault => argumentError none fault
  | .ok a =>
    match a.settled with
    | [] => return a.words
    | (.help, _) :: _ => showHelp none
    | (.version, _) :: _ =>
      print (programName ++ ", version " ++ programVersion)
      stop (.exit 0)

/-- The first word names the command; the arguments after it are the command's own. A word that is
no command but looks like an option is taken for one. -/
def main (args : List Text) : Session Unit := do
  if args.isEmpty then
    complain (usageLine none)
    stop (.exit 2)
  match ← groupWords args with
  | [] => usageError none "Missing command."
  | word :: rest =>
    match CommandKind.ofName? word with
    | some k => runCommand k rest
    | none =>
      if word.startsWith "-" then
        let _ ← groupWords (word :: rest)
      usageError none ("No such command " ++ word.quoted ++ ".")

end Session

def runProgram (fs : FileSystem) (args : List Text) : Outcome :=
  match (Session.main args).run.run { files := fs } with
  | (.ok (), console) => ⟨0, console, none⟩
  | (.error (.exit code), console) => ⟨code, console, none⟩
  | (.error (.unhandled fault), console) => ⟨1, console, some fault⟩

end UmlSchema
