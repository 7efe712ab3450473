import UmlSchema.Text.Basic

/-! The kinds of model elements, from the general to the special. -/
namespace UmlSchema

inductive Kind where
  | element
  | tag
  | constraint
  | project
  | package
  | model
  | primitiveType
  | enumerationLiteral
  | enumeration
  | property
  | parameter
  | operation
  | classifier
  | klass
  | interface
  | relationship
  | directedRelationship
  | generalization
  | interfaceRealization
  | dependency
  | associationEnd
  | association
  deriving DecidableEq, Repr, Inhabited

namespace Kind

/-- The kind itself and the more general kinds it belongs to. -/
def lineage : Kind → List Kind
  | element => [element]
  | model => [model, package, element]
  | klass => [klass, classifier, element]
  | interface => [interface, classifier, element]
  | directedRelationship => [directedRelationship, relationship, element]
  | generalization => [generalization, directedRelationship, relationship, element]
  | interfaceRealization => [interfaceRealization, directedRelationship, relationship, element]
  | dependency => [dependency, directedRelationship, relationship, element]
  | association => [association, relationship, element]
  | k => [k, element]

def isA (k general : Kind) : Bool := k.lineage.contains general

def label : Kind → Text
  | element => "Element"
  | tag => "Tag"
  | constraint => "UMLConstraint"
  | project => "Project"
  | package => "UMLPackage"
  | model => "UMLModel"
  | primitiveType => "UMLPrimitiveType"
  | enumerationLiteral => "UMLEnumerationLiteral"
  | enumeration => "UMLEnumeration"
  | property => "UMLAttribute"
  | parameter => "UMLParameter"
  | operation => "UMLOperation"
  | classifier => "UMLClassifier"
  | klass => "UMLClass"
  | interface => "UMLInterface"
  | relationship => "Relationship"
  | directedRelationship => "DirectedRelationship"
  | generalization => "UMLGeneralization"
  | interfaceRealization => "UMLInterfaceRealization"
  | dependency => "UMLDependency"
  | associationEnd => "UMLAssociationEnd"
  | association => "UMLAssociation"

def all : List Kind :=
  [element, tag, constraint, project, package, model, primitiveType, enumerationLiteral,
   enumeration, property, parameter, operation, classifier, klass, interface, relationship,
   directedRelationship, generalization, interfaceRealization, dependency, associationEnd,
   association]

def ofLabel? (t : Text) : Option Kind := all.find? fun k => k.label == t

/-- Kinds that are only a common shape of others; a document cannot name them. -/
def isShape : Kind → Bool
  | element | classifier | relationship | directedRelationship => true
  | _ => false

end Kind

end UmlSchema
