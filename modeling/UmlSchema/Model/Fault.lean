import UmlSchema.Model.Field
import UmlSchema.Model.Kind

/-! What a model can be at fault with: a value stands where it cannot be used. -/
namespace UmlSchema

inductive Shape where
  | absent
  | flag
  | text
  | list
  | element (kind : Kind)
  deriving DecidableEq, Repr

inductive TextUse where
  | trimming
  | splitting
  | lowering
  deriving DecidableEq, Repr

inductive ModelFault where
  /-- A field is asked of what does not have it. -/
  | lacks (shape : Shape) (field : Field)
  /-- Parameters are asked of what is no operation. -/
  | noOperation (shape : Shape)
  | noMembers (shape : Shape)
  /-- A tree is walked that holds more than elements. -/
  | noTree (shape : Shape)
  /-- A member is added to what is no list. -/
  | noList (shape : Shape)
  /-- A list stands where the name of a field or an element is expected. -/
  | noKey (shape : Shape)
  | noText (shape : Shape) (use : TextUse)
  /-- A name among others is no text. -/
  | cannotJoin (shape : Shape) (position : Nat)
  | cannotAppend (shape : Shape)
  | cannotPrepend (shape : Shape)
  /-- An inferred name is empty. -/
  | emptyName
  deriving DecidableEq, Repr

end UmlSchema
