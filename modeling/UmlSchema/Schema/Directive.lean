import UmlSchema.Model.Shown

/-! Directives of fields and operations: one for each tag, then one for each owned constraint. -/
namespace UmlSchema.Model

/-- A directive from the name of a tag or constraint and the field with its argument. -/
def directive (m : Model) (argument : Field) (v : Value) : Except ModelFault Text := do
  let name ← m.shown v .name
  let argument ← m.shown v argument
  return " @" ++ name.text ++ "(" ++ argument.text ++ ")"

def isConstraint (m : Model) (v : Value) : Bool := m.shape v = .element .constraint

def directives (m : Model) (e : ElementId) : Except ModelFault Text := do
  let tags ← (← m.members (m.element e).tags).mapM (m.directive .value)
  let owned ← m.members (m.element e).owned
  let constraints ← (owned.filter m.isConstraint).mapM (m.directive .specification)
  return tags.flatten ++ constraints.flatten

end UmlSchema.Model
