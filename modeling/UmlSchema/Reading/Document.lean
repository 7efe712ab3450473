import UmlSchema.Files.FileSystem
import UmlSchema.Json.Parser
import UmlSchema.Reading.Placement
import UmlSchema.Report.Log
import UmlSchema.Text.Quoted

/-! Reading model documents: JSON values, texts and octets. -/
namespace UmlSchema

inductive ReadFault where
  | badPath (fault : PathFault)
  | cannotOpen (cause : FileFault)
  | notUtf8 (fault : DecodeFault)
  | invalidJson (error : Json.SyntaxError) (source : Text)
  | tooManyDigits (count : Nat)
  | noType
  | shape (fault : ShapeFault)
  | unresolved (id : Text)
  deriving DecidableEq, Repr

structure Document where
  model : Model
  root : ElementId := 0
  identified : Nat

namespace Document

def distinct (ks : List Key) : List Key :=
  ks.foldl (fun seen k => if k ∈ seen then seen else k :: seen) []

/-- The last element of an identifier. -/
def lookup (ids : List (Key × ElementId)) (k : Key) : Option ElementId :=
  (ids.reverse.find? fun i => i.1 = k).map (·.2)

/-- A stereotype takes over the name of the element it refers to; other fields refer to it. -/
def resolved (m : Model) (o : Node.OpenReference) (target : ElementId) : Model :=
  match o.field with
  | .stereotype => m.set o.element .stereotype (m.element target).name
  | f => m.set o.element f (.ref target)

def resolve (ids : List (Key × ElementId)) (m : Model) :
    List Node.OpenReference → Except ReadFault Model
  | [] => .ok m
  | o :: rest =>
    match Key.ofJson? o.id with
    | none => .error (.shape (.notAKey o.id.shape))
    | some k =>
      match lookup ids k with
      | none => .error (.unresolved o.id.plainText)
      | some target => resolve ids (resolved m o target) rest

def ofNode (n : Node) : Except ReadFault Document := do
  let ids := n.identifiers 0
  let model ← resolve ids n.place (n.openReferences 0)
  return { model := model, identified := (distinct (ids.map (·.1))).length }

/-- The root of a document is an object with a type name. -/
def ofJson (j : Json) : Except ReadFault Document :=
  match j.get? "_type" with
  | none => .error .noType
  | some _ =>
    match Node.ofJson j with
    | .error fault => .error (.shape fault)
    | .ok n => ofNode n

def ofText (t : Text) : Except ReadFault Document :=
  let t := t.uniformLineEnds
  match Json.parse t with
  | .error ⟨.tooManyDigits count, _⟩ => .error (.tooManyDigits count)
  | .error e => .error (.invalidJson e t)
  | .ok j => ofJson j

def ofBytes (bs : Bytes) : Except ReadFault Document :=
  match Utf8.decode bs with
  | .error fault => .error (.notUtf8 fault)
  | .ok t => ofText t

def ofFile (fs : FileSystem) (path : Text) : Except ReadFault Document :=
  match path.pathFault?, fs.read path with
  | some fault, _ => .error (.badPath fault)
  | none, .error fault => .error (.cannotOpen fault)
  | none, .ok bs => ofBytes bs

def record (d : Document) (path : Text) : LogRecord :=
  ⟨.debug, .reading, "Read " ++ Text.ofNat d.identified ++ " elements from " ++ path⟩

end Document

/-- The message for a document's own faults, after the path it was read from. Faults in the path,
the encoding, the numbers and the layout of a document are not described. -/
def ReadFault.message? (path : Text) : ReadFault → Option Text
  | cannotOpen cause =>
    some (path ++ ": cannot open file: " ++ cause.message ++ ": " ++ path.quoted)
  | invalidJson e source => some (path ++ ": invalid JSON: " ++ e.message source)
  | noType => some (path ++ ": root object has no _type")
  | unresolved id => some (path ++ ": unresolved reference " ++ id)
  | badPath _ | notUtf8 _ | tooManyDigits _ | shape _ => none

end UmlSchema
