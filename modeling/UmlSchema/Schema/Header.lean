import UmlSchema.Model.Shown
import UmlSchema.Platform.Basic

/-! The header of a document, which describes the model's root. -/
namespace UmlSchema

/-- The header without a template: the root's name, version, author and copyright, as far as it has
them, each on a line of its own. -/
def standardHeader (m : Model) (root : ElementId) : Text :=
  let entry (label : String) (f : Field) : Text :=
    match (m.element root).get? f with
    | some v => if v.isTrue then "\n" ++ label ++ (m.shownValue root f v).text else []
    | none => []
  entry "name: " .name ++ entry "version: " .version ++ entry "author " .author
    ++ entry "copyright " .copyright

def headerText (template : Option Template) (m : Model) (root : ElementId) :
    Except HeaderFault Text :=
  match template with
  | some t => t m root
  | none => .ok (standardHeader m root)

end UmlSchema
