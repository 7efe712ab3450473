import UmlSchema.Platform.Template

/-! The platform that the program runs on. -/
namespace UmlSchema

@[reducible] def Platform.usual : Platform where
  memoryBound := Nat.pow 2 36
  defaultTypeName := "String"
  nameComplaint? v := (NameFault.of? v).map NameFault.message
  template? := PlainTemplate.find?

end UmlSchema
