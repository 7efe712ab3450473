import UmlSchema.Model.Shown
import UmlSchema.Report.Log

/-! Warnings about the shape of a model. They never stop a generation run. -/
namespace UmlSchema

inductive WarningKind where
  | multipleInheritance
  | unionInheritance
  | unionRealization
  | unionOperations
  | unionAttributes
  | unknownMultiplicity
  | invalidName
  deriving DecidableEq, Repr

namespace WarningKind

def label : WarningKind → Text
  | multipleInheritance => "multiple_inheritance"
  | unionInheritance => "union_inheritance"
  | unionRealization => "union_realization"
  | unionOperations => "union_operations"
  | unionAttributes => "union_attributes"
  | unknownMultiplicity => "unknown_multiplicity"
  | invalidName => "invalid_name"

def all : List WarningKind :=
  [multipleInheritance, unionInheritance, unionRealization, unionOperations, unionAttributes,
   unknownMultiplicity, invalidName]

def ofLabel? (t : Text) : Option WarningKind := all.find? fun k => k.label == t

end WarningKind

structure Warning where
  kind : WarningKind
  message : Text
  element : Shown := .ofText []
  deriving DecidableEq, Repr

def Warning.record (w : Warning) : LogRecord :=
  let element : Text := if w.element.value.isTrue then w.element.text else "<anonymous>"
  ⟨.warning, .warnings, w.message ++ " (" ++ element ++ ")"⟩

def warningsOfKind (ws : List Warning) (k : WarningKind) : List Warning :=
  ws.filter fun w => w.kind = k

end UmlSchema
