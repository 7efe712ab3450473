import UmlSchema.Json.Basic

/-! What a JSON value is, apart from its content. -/
namespace UmlSchema

inductive Json.Shape where
  | null
  | bool
  | int
  | real
  | str
  | arr
  | obj
  deriving DecidableEq, Repr

def Json.shape : Json → Json.Shape
  | .null => .null
  | .bool _ => .bool
  | .int _ => .int
  | .real _ => .real
  | .str _ => .str
  | .arr _ => .arr
  | .obj _ => .obj

end UmlSchema
