import UmlSchema.Files.FileSystem
import UmlSchema.Model.Basic
import UmlSchema.Text.Utf8

/-! What is not the program's own: the memory that it runs in, the language that it writes for and
the templates that headers are made from. The program only asks, and takes every answer. -/
namespace UmlSchema

inductive HeaderFault where
  | encoding (fault : DecodeFault)
  | filling (message : Text)
  deriving DecidableEq, Repr

abbrev Template := Model → ElementId → Except HeaderFault Text

class Platform where
  /-- Texts of this length and more find no room in memory. -/
  memoryBound : Nat
  /-- The type of what has none. -/
  defaultTypeName : Text
  /-- What the language has against a name, in words. -/
  nameComplaint? : Value → Option Text
  /-- The template of a given name in a directory. -/
  template? : FileSystem → Path → Text → Option Template

end UmlSchema
