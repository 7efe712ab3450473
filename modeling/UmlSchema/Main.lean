import UmlSchema.Command.Run
import UmlSchema.Platform.Usual

/-! The program. It takes a picture of the files that the arguments name, runs the command on the
picture, and carries out what the run changed. -/
namespace UmlSchema.Program

attribute [local instance] Platform.usual

/-- The paths among the arguments, with the header template of a template directory. -/
private def namedPaths (args : List Text) : List Path :=
  match Arguments.parse groupSpecs false args with
  | .ok ⟨_, word :: rest⟩ =>
    match (CommandKind.ofName? word).map fun k => Arguments.parse (commandSpecs k) true rest with
    | some (.ok a) => a.given.flatMap fun
      | (.model, t) | (.output, t) => [.ofText t]
      | (.templateDir, t) => [.ofText t, (Path.ofText t).child templateName]
      | _ => []
    | _ => []
  | _ => []

private def look (path : String) : IO (Option Entry) := do
  try
    let real ← IO.FS.realPath path
    if ← real.isDir then return some .directory
    let content ← IO.FS.readBinFile real
    return some (.file content.toList 0o644)
  catch _ => return none

private def observe (fs : FileSystem) (p : Position) : IO FileSystem := do
  let mut fs := fs
  for n in List.range p.length do
    let q := p.take (n + 1)
    if (fs.at? q).isNone then
      if let some e ← look ("/" ++ (Text.joinWith "/" q).toString) then
        fs := fs.put q e
  return fs

private def observePath (fs : FileSystem) (p : Path) : IO FileSystem :=
  observe fs (Path.ofText (fs.resolve p)).parts

private def changed (before after : FileSystem) : List (Position × Entry) :=
  after.entries.filter fun (p, e) => before.at? p ≠ some e

/-- Writes a file under another name first, then moves it to its place. -/
private def store (p : Position) : Entry → IO Unit
  | .directory => pure ()
  | .file content _ => do
    let path := "/" ++ (Text.joinWith "/" p).toString
    IO.FS.writeBinFile (path ++ ".tmp") ⟨content.toArray⟩
    IO.FS.rename (path ++ ".tmp") path

def run (args : List String) : IO UInt32 := do
  let args := args.map Text.ofString
  let here ← IO.currentDir
  let start : FileSystem := { workingDirectory := (Path.ofText here.toString).parts }
  let seen ← (namedPaths args).foldlM observePath start
  let trial := runProgram seen args
  let seen ← (changed seen trial.console.files).foldlM (fun fs x => observe fs x.1) seen
  let outcome := runProgram seen args
  (changed seen outcome.console.files).forM fun x => store x.1 x.2
  IO.print outcome.console.out.toString
  IO.eprint outcome.console.err.toString
  return UInt32.ofNat outcome.exitCode

end UmlSchema.Program

def main (args : List String) : IO UInt32 := UmlSchema.Program.run args
