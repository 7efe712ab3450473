import UmlSchema.Files.Octets
import UmlSchema.Files.Path

/-! A file system as a value: files and directories by absolute position, with a working
directory. -/
namespace UmlSchema

inductive FileFault where
  | notFound
  | busy
  | alreadyThere
  | notADirectory
  | isADirectory
  | nameTooLong
  /-- A fault that does not come from what stands where, such as a missing permission. -/
  | other (number : Nat) (reason : Text)
  deriving DecidableEq, Repr

namespace FileFault

def number : FileFault → Nat
  | notFound => 2
  | busy => 16
  | alreadyThere => 17
  | notADirectory => 20
  | isADirectory => 21
  | nameTooLong => 36
  | other number _ => number

def reason : FileFault → Text
  | notFound => "No such file or directory"
  | busy => "Device or resource busy"
  | alreadyThere => "File exists"
  | notADirectory => "Not a directory"
  | isADirectory => "Is a directory"
  | nameTooLong => "File name too long"
  | other _ reason => reason

def message (f : FileFault) : Text := "[Errno " ++ Text.ofNat f.number ++ "] " ++ f.reason

end FileFault

/-- The names from the top down to a file or directory. -/
abbrev Position := List Text

inductive Entry where
  | directory
  | file (content : Bytes) (mode : Nat)
  deriving DecidableEq, Repr

structure FileSystem where
  entries : List (Position × Entry) := []
  workingDirectory : Position := []
  /-- The permissions that a new file does not get. -/
  mask : Nat := 0o022
  deriving DecidableEq, Repr

namespace FileSystem

def newFileMode (fs : FileSystem) : Nat := 0o666 - (0o666 &&& fs.mask)

/-- What stands at a position. The working directory and those above it are always there. -/
def at? (fs : FileSystem) (p : Position) : Option Entry :=
  match fs.entries.find? fun e => e.1 == p with
  | some e => some e.2
  | none => if p.isPrefixOf fs.workingDirectory then some .directory else none

def put (fs : FileSystem) (p : Position) (e : Entry) : FileSystem :=
  if fs.entries.any fun x => x.1 == p then
    { fs with entries := fs.entries.map fun x => if x.1 = p then (p, e) else x }
  else { fs with entries := fs.entries ++ [(p, e)] }

def remove (fs : FileSystem) (p : Position) : FileSystem :=
  { fs with entries := fs.entries.filter fun x => x.1 ≠ p }

def makeDirectories (fs : FileSystem) (p : Position) : FileSystem :=
  (List.range p.length).foldl (fun fs n =>
    let q := p.take (n + 1)
    if (fs.at? q).isSome then fs else fs.put q .directory) fs

def longestName : Nat := 255

def longestPath : Nat := 4095

def step (fs : FileSystem) (p : Position) (name : Text) : Except FileFault Position :=
  match fs.at? p with
  | none => .error .notFound
  | some (.file ..) => .error .notADirectory
  | some .directory =>
    if name = ".." then .ok p.dropLast
    else if longestName < name.pathOctets.length then .error .nameTooLong
    else .ok (p ++ [name.storedName])

def start (fs : FileSystem) (p : Path) : Position :=
  if p.isAbsolute then [] else fs.workingDirectory

/-- The position that a path leads to. All but the last name have to be directories. -/
def locate (fs : FileSystem) (p : Path) : Except FileFault Position :=
  p.parts.foldlM fs.step (fs.start p)

/-- What stands at a written path. The empty path leads nowhere, and a path that ends in a slash
leads to a directory. -/
def status (fs : FileSystem) (path : Text) : Except FileFault Entry := do
  if path.isEmpty then throw .notFound
  if longestPath < path.pathOctets.length then throw .nameTooLong
  let p ← fs.locate (.ofText path)
  match fs.at? p with
  | none => throw .notFound
  | some (.file content mode) =>
    if path.endsWith "/" || path.endsWith "/." then throw .notADirectory
    return .file content mode
  | some .directory => return .directory

def read (fs : FileSystem) (path : Text) : Except FileFault Bytes := do
  match ← fs.status path with
  | .file content _ => return content
  | .directory => throw .isADirectory

/-- The absolute form of a path, with double dots worked out by name. -/
def resolve (fs : FileSystem) (p : Path) : Text :=
  let names := p.parts.foldl (fun (q : Position) (name : Text) =>
    if name = ".." then q.dropLast else q ++ [name]) (fs.start p)
  "/" ++ Text.joinWith "/" names

end FileSystem

end UmlSchema
