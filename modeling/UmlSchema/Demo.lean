import UmlSchema.Model.Edit
import UmlSchema.Schema.Generation

/-! A demonstration: a small shop model built element by element, a preview of one class, and the
whole document with its warnings. -/
namespace UmlSchema.Demo

private def named (k : Kind) (name : String) (fields : List (Field × Value)) : Edit ElementId :=
  Edit.create k ((.name, .text name) :: fields)

private def unnamed (k : Kind) (fields : List (Field × Value)) : Edit ElementId :=
  Edit.create k fields

private def addTo (parent : ElementId) (make : Edit ElementId) : Edit ElementId := do
  let child ← make
  Edit.add parent child
  return child

private def text (s : String) : Value := .text s

private def build : Edit (ElementId × ElementId × ElementId) := do
  let project ← named .project "Shop" [(.version, text "1.0"), (.author, text "Demo")]
  let shop ← addTo project (named .package "Shop" [])
  let _ ← addTo shop (named .primitiveType "Date" [(.documentation, text "ISO-8601 calendar date")])
  let opened ← named .enumerationLiteral "OPEN" []
  let shipped ← named .enumerationLiteral "SHIPPED" [(.documentation, text "Left the warehouse")]
  let _ ← addTo shop (named .enumeration "OrderStatus" [(.literals, .refs [opened, shipped])])
  let id ← named .property "id" [(.type, text "ID"), (.multiplicity, text "1")]
  let node ← addTo shop (named .interface "Node" [(.attributes, .refs [id])])
  let email ← named .property "email" [(.type, text "String"), (.multiplicity, text "1")]
  let customer ← addTo shop (named .klass "Customer"
    [(.documentation, text "Somebody who buys things"), (.attributes, .refs [email])])
  let _ ← addTo customer (unnamed .interfaceRealization
    [(.source, .ref customer), (.target, .ref node)])
  let placed ← named .property "placed" [(.type, text "Date")]
  let currency ← named .parameter "currency"
    [(.type, text "String"), (.defaultValue, text "\x22EUR\x22")]
  let result ← unnamed .parameter
    [(.type, text "Float"), (.multiplicity, text "1"), (.direction, text "return")]
  let total ← named .operation "total" [(.parameters, .refs [currency, result])]
  let order ← addTo shop (named .klass "Order"
    [(.attributes, .refs [placed]), (.operations, .refs [total])])
  let buyer ← unnamed .associationEnd
    [(.reference, .ref customer), (.multiplicity, text "1")]
  let bought ← unnamed .associationEnd
    [(.reference, .ref order), (.multiplicity, text "*")]
  let _ ← addTo shop (unnamed .association
    [(.end1, .ref buyer), (.end2, .ref bought)])
  let found ← addTo shop (named .klass "SearchResult" [(.stereotype, text "union")])
  let _ ← addTo found (unnamed .dependency
    [(.source, .ref found), (.target, .ref customer)])
  let _ ← addTo found (unnamed .dependency
    [(.source, .ref found), (.target, .ref order)])
  return (project, shop, customer)

private def warningLine (w : Warning) : Text := "   - [" ++ w.element.text ++ "] " ++ w.message

def lines [Platform] : Except RenderFault (List Text) := do
  let (built, model) := build.run.run {}
  let (project, shop, customer) ← built.mapError .model
  let options : Options := { indentSpaces := 2 }
  let preview ← (preview model options customer).result
  let whole ← (render model options (some none) project).result
  let owned ← (model.members (model.element shop).owned).mapError .model
  let results : List Text := [
    "=== IDL Generation Demo ===\n",
    "1. Building model...",
    "   " ++ Text.ofNat owned.length ++ " elements in package " ++ (model.shownName shop).text,
    "\n2. Preview: Customer",
    preview.text,
    "3. Whole project",
    whole.text,
    "   " ++ Text.ofNat whole.warnings.length ++ " warnings"]
  let closing : Text := "\n=== Demo Complete ==="
  return results ++ whole.warnings.map warningLine ++ [closing]

def output [Platform] : Except RenderFault Text := do
  return (← lines).flatMap fun l => l ++ [.lineFeed]

end UmlSchema.Demo
