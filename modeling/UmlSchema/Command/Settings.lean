import UmlSchema.Command.Arguments
import UmlSchema.Files.FileSystem
import UmlSchema.Options
import UmlSchema.Text.Quoted

/-! What the command line asks for: a command, and its settings after all of them were checked. -/
namespace UmlSchema

def programName : Text := "gql-idlgen"

def programVersion : Text := "0.1.0"

inductive GroupOption where
  | version
  | help
  deriving DecidableEq, Repr

def groupSpecs : List (OptionSpec GroupOption) :=
  [⟨.version, "--version", none, false⟩, ⟨.help, "--help", none, false⟩]

inductive CommandKind where
  | generate
  | preview
  deriving DecidableEq, Repr

namespace CommandKind

def name : CommandKind → Text
  | generate => "generate"
  | preview => "preview"

def ofName? (t : Text) : Option CommandKind :=
  [generate, preview].find? fun k => k.name == t

end CommandKind

inductive CommandOption where
  | model
  | noDoc
  | indentSpaces
  | useTab
  | templateDir
  | debug
  | element
  | output
  | header
  | verbose
  | help
  deriving DecidableEq, Repr

private def flag (key : CommandOption) (long : String) : OptionSpec CommandOption :=
  ⟨key, long, none, false⟩

private def valued (key : CommandOption) (long : String) : OptionSpec CommandOption :=
  ⟨key, long, none, true⟩

def commandSpecs (k : CommandKind) : List (OptionSpec CommandOption) :=
  [⟨.model, "--model", some (.scalar 'm'), true⟩, flag .noDoc "--no-doc",
   valued .indentSpaces "--indent-spaces", flag .useTab "--use-tab",
   valued .templateDir "--template-dir", flag .debug "--debug",
   ⟨.element, "--element", some (.scalar 'e'), true⟩, flag .help "--help"]
  ++ match k with
    | .generate =>
      [⟨.output, "--output", some (.scalar 'o'), true⟩, valued .header "--header",
       ⟨.verbose, "--verbose", some (.scalar 'v'), false⟩]
    | .preview => []

structure Settings where
  model : Text := []
  element : Option Text := none
  output : Option Text := none
  header : Option Text := none
  verbose : Bool := false
  help : Bool := false
  options : Options := {}

inductive SettingFault where
  | missing (option : Text)
  | invalid (option problem : Text)
  | extraWords (words : List Text)
  | badPath (fault : PathFault)
  deriving DecidableEq, Repr

def SettingFault.message : SettingFault → Text
  | missing option => "Missing option " ++ option ++ "."
  | invalid option problem => "Invalid value for " ++ option ++ ": " ++ problem
  | extraWords [w] => "Got unexpected extra argument (" ++ w ++ ")"
  | extraWords ws => "Got unexpected extra arguments (" ++ Text.joinWith " " ws ++ ")"
  | badPath fault => fault.message

def ArgumentFault.message : ArgumentFault → Text
  | noSuchOption name => "No such option " ++ name.quoted ++ "."
  | requiresArgument name => "Option " ++ name.quoted ++ " requires an argument."
  | takesNoValue name => "Option " ++ name.quoted ++ " does not take a value."

namespace Settings

private def modelLabel : Text := "'--model' / '-m'"

private def elementLabel : Text := "'--element' / '-e'"

private def outputLabel : Text := "'--output' / '-o'"

private def templateLabel : Text := "'--template-dir'"

private def indentLabel : Text := "'--indent-spaces'"

def look (fs : FileSystem) (path : Text) : Except SettingFault (Option Entry) :=
  match path.pathFault? with
  | some fault => .error (.badPath fault)
  | none => .ok (fs.status path).toOption

def acceptModel (fs : FileSystem) (s : Settings) (path : Text) : Except SettingFault Settings := do
  match ← look fs path with
  | none => throw (.invalid modelLabel ("File " ++ path.quoted ++ " does not exist."))
  | some .directory => throw (.invalid modelLabel ("File " ++ path.quoted ++ " is a directory."))
  | some (.file ..) => return { s with model := path }

def acceptOutput (fs : FileSystem) (s : Settings) (path : Text) : Except SettingFault Settings := do
  match ← look fs path with
  | some .directory => throw (.invalid outputLabel ("File " ++ path.quoted ++ " is a directory."))
  | _ => return { s with output := some path }

def acceptTemplateDir (fs : FileSystem) (s : Settings) (path : Text) :
    Except SettingFault Settings := do
  match ← look fs path with
  | none => throw (.invalid templateLabel ("Directory " ++ path.quoted ++ " does not exist."))
  | some (.file ..) => throw (.invalid templateLabel ("Directory " ++ path.quoted ++ " is a file."))
  | some .directory => return { s with options.templateDir := some path }

def acceptIndent (s : Settings) (t : Text) : Except SettingFault Settings :=
  match t.toInt with
  | .error _ => .error (.invalid indentLabel (t.quoted ++ " is not a valid integer range."))
  | .ok n =>
    if n < 0 then .error (.invalid indentLabel (Text.ofInt n ++ " is not in the range x>=0."))
    else .ok { s with options.indentSpaces := n.toNat }

def accept (fs : FileSystem) (s : Settings) : CommandOption × Text → Except SettingFault Settings
  | (.model, path) => acceptModel fs s path
  | (.output, path) => acceptOutput fs s path
  | (.templateDir, path) => acceptTemplateDir fs s path
  | (.indentSpaces, t) => acceptIndent s t
  | (.element, t) => .ok { s with element := some t }
  | (.header, t) => .ok { s with header := some t }
  | (.noDoc, _) => .ok { s with options.idlDoc := false }
  | (.useTab, _) => .ok { s with options.useTab := true }
  | (.debug, _) => .ok { s with options.debug := true }
  | (.verbose, _) => .ok { s with verbose := true }
  | (.help, _) => .ok { s with help := true }

/-- The options given are checked in their order, then the required ones, then the other words. -/
def ofArguments (fs : FileSystem) (k : CommandKind) (a : Arguments CommandOption) :
    Except SettingFault Settings := do
  let s ← a.settled.foldlM (accept fs) {}
  if (a.value? .model).isNone then throw (.missing modelLabel)
  if k = .preview ∧ (a.value? .element).isNone then throw (.missing elementLabel)
  if !a.words.isEmpty then throw (.extraWords a.words)
  return s

end Settings

end UmlSchema
