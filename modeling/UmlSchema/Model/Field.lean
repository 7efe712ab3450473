import UmlSchema.Text.Basic

/-! The fields of elements. Which of them an element starts with depends on its kind. -/
namespace UmlSchema

inductive Field where
  | name
  | documentation
  | tags
  | owned
  | parent
  | value
  | specification
  | version
  | author
  | copyright
  | literals
  | type
  | multiplicity
  | defaultValue
  | direction
  | parameters
  | stereotype
  | attributes
  | operations
  | isAbstract
  | source
  | target
  | reference
  | navigable
  | end1
  | end2
  deriving DecidableEq, Repr

namespace Field

def label : Field → Text
  | name => "name"
  | documentation => "documentation"
  | tags => "tags"
  | owned => "owned_elements"
  | parent => "parent"
  | value => "value"
  | specification => "specification"
  | version => "version"
  | author => "author"
  | copyright => "copyright"
  | literals => "literals"
  | type => "type"
  | multiplicity => "multiplicity"
  | defaultValue => "default_value"
  | direction => "direction"
  | parameters => "parameters"
  | stereotype => "stereotype"
  | attributes => "attributes"
  | operations => "operations"
  | isAbstract => "is_abstract"
  | source => "source"
  | target => "target"
  | reference => "reference"
  | navigable => "navigable"
  | end1 => "end1"
  | end2 => "end2"

def all : List Field :=
  [name, documentation, tags, owned, parent, value, specification, version, author, copyright,
   literals, type, multiplicity, defaultValue, direction, parameters, stereotype, attributes,
   operations, isAbstract, source, target, reference, navigable, end1, end2]

def ofLabel? (t : Text) : Option Field := all.find? fun f => f.label == t

end Field

end UmlSchema
