import UmlSchema.Files.FileSystem

/-! Replacing a file as a whole. The text goes to a temporary file in the same directory, which then
takes the place of the destination; after a fault the temporary file is removed again. -/
namespace UmlSchema

inductive WriteStep where
  | status
  | create
  | write
  | setMode
  | replace
  deriving DecidableEq, Repr

inductive WriteCause where
  | file (fault : FileFault)
  | encoding (fault : EncodeFault)
  deriving DecidableEq, Repr

def WriteCause.message : WriteCause → Text
  | file f => f.message
  | encoding f => f.message

/-- Faults that strike from outside, by step, and how many octets are in the file when a fault
strikes the writing. -/
structure Faults where
  strikes : WriteStep → Option FileFault := fun _ => none
  written : Nat := 0

def noFaults : Faults := {}

namespace FileSystem

def strike (faults : Faults) (s : WriteStep) : Except FileFault Unit :=
  match faults.strikes s with
  | some f => .error f
  | none => .ok ()

/-- The mode that a written file gets: that of the file it replaces, if there is one. -/
def targetMode (fs : FileSystem) (faults : Faults) (p : Path) : Except FileFault Nat :=
  match strike faults .status, fs.status p.render with
  | .error .notFound, _ => .ok fs.newFileMode
  | .error f, _ => .error f
  | .ok (), .ok (.file _ mode) => .ok mode
  | .ok (), .ok .directory => .ok 0o755
  | .ok (), .error .notFound => .ok fs.newFileMode
  | .ok (), .error f => .error f

def temporaryName (name : Text) (n : Nat) : Text :=
  let digits := Text.ofNat n
  let zeros : Text := List.replicate (8 - digits.length) (.scalar '0')
  "." ++ name ++ "." ++ zeros ++ digits ++ ".tmp"

def temporaryLength (fs : FileSystem) (p : Path) : Nat :=
  (fs.resolve p.parent ++ "/" ++ temporaryName p.name 0).pathOctets.length

def temporaryPosition (fs : FileSystem) (faults : Faults) (p : Path) :
    Except FileFault Position := do
  if longestPath < fs.temporaryLength p then throw .nameTooLong
  let directory ← fs.locate p.parent
  match fs.at? directory with
  | none => throw .notFound
  | some (.file ..) => throw .notADirectory
  | some .directory =>
    if longestName < (temporaryName p.name 0).pathOctets.length then throw .nameTooLong
    strike faults .create
    let candidates := (List.range (fs.entries.length + 1)).map fun n =>
      directory ++ [(temporaryName p.name n).storedName]
    match candidates.find? fun q => (fs.at? q).isNone with
    | some q => return q
    | none => throw .alreadyThere

def replace (fs : FileSystem) (source : Position) (p : Path) : Except FileFault FileSystem := do
  if longestPath < p.render.pathOctets.length then throw .nameTooLong
  if p.name.isEmpty || p.name = ".." then throw .busy
  let target ← fs.locate p
  match fs.at? source, fs.at? target with
  | none, _ => throw .notFound
  | _, some .directory => throw .isADirectory
  | some e, _ => return (fs.remove source).put target e

def withMode (fs : FileSystem) (p : Position) (mode : Nat) : FileSystem :=
  match fs.at? p with
  | some (.file content _) => fs.put p (.file content mode)
  | _ => fs

def discard (fs : FileSystem) (p : Position) : FileSystem :=
  if (fs.at? p).isSome then fs.remove p else fs

end FileSystem

/-- A part of a writing run. A step that fails leaves behind what was done before it. -/
abbrev Writing := ExceptT WriteCause (StateM FileSystem)

namespace Writing

def attempt {α : Type} (x : Except FileFault α) : Writing α :=
  match x with
  | .ok a => pure a
  | .error f => throw (.file f)

/-- Writes a text to the temporary file. A text without an encoded form leaves the file empty; a
fault from outside may leave a part of the text in it. -/
def fill (faults : Faults) (temporary : Position) (content : Text) : Writing Unit := do
  match Utf8.encode content, faults.strikes .write with
  | .error f, _ => throw (.encoding f)
  | .ok bytes, some f =>
    modify fun fs => fs.put temporary (.file (bytes.take faults.written) 0o600)
    throw (.file f)
  | .ok bytes, none => modify fun fs => fs.put temporary (.file bytes 0o600)

def setMode (faults : Faults) (temporary : Position) (mode : Nat) : Writing Unit := do
  attempt (FileSystem.strike faults .setMode)
  modify fun fs => fs.withMode temporary mode

def moveTo (faults : Faults) (temporary : Position) (p : Path) : Writing Unit := do
  attempt (FileSystem.strike faults .replace)
  let fs ← get
  set (← attempt (fs.replace temporary p))

def fillAndMove (faults : Faults) (temporary : Position) (mode : Nat) (p : Path)
    (content : Text) : Writing Unit := do
  fill faults temporary content
  setMode faults temporary mode
  moveTo faults temporary p

end Writing

namespace FileSystem

/-- Writes a text to a path as a whole, or leaves the file system as it was. -/
def writeWhole (fs : FileSystem) (faults : Faults) (p : Path) (content : Text) :
    Except WriteCause Unit × FileSystem :=
  match fs.targetMode faults p, fs.temporaryPosition faults p with
  | .error f, _ => (.error (.file f), fs)
  | .ok _, .error f => (.error (.file f), fs)
  | .ok mode, .ok temporary =>
    let opened := fs.put temporary (.file [] 0o600)
    match (Writing.fillAndMove faults temporary mode p content).run.run opened with
    | (.ok (), done) => (.ok (), done)
    | (.error cause, left) => (.error cause, left.discard temporary)

end FileSystem

end UmlSchema
