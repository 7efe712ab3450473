import UmlSchema.Banner
import UmlSchema.Command.Arguments
import UmlSchema.Command.Run
import UmlSchema.Command.Settings
import UmlSchema.Demo
import UmlSchema.Files.AtomicWrite
import UmlSchema.Files.FileSystem
import UmlSchema.Files.Octets
import UmlSchema.Files.Path
import UmlSchema.Inflection.Noun
import UmlSchema.Inflection.Pattern
import UmlSchema.Inflection.Rules
import UmlSchema.Json.Basic
import UmlSchema.Json.Key
import UmlSchema.Json.Parser
import UmlSchema.Json.Printer
import UmlSchema.Json.Shape
import UmlSchema.Main
import UmlSchema.Model.Basic
import UmlSchema.Model.Edit
import UmlSchema.Model.Element
import UmlSchema.Model.Fault
import UmlSchema.Model.Field
import UmlSchema.Model.Kind
import UmlSchema.Model.Lookup
import UmlSchema.Model.Repository
import UmlSchema.Model.Shown
import UmlSchema.Model.Tree
import UmlSchema.Model.Value
import UmlSchema.Number.Binary
import UmlSchema.Number.Shortest
import UmlSchema.Options
import UmlSchema.Platform.Basic
import UmlSchema.Platform.Name
import UmlSchema.Platform.Template
import UmlSchema.Platform.Usual
import UmlSchema.Proofs.AllOrNothing
import UmlSchema.Proofs.BuildOrder
import UmlSchema.Proofs.ClassChain
import UmlSchema.Proofs.Containment
import UmlSchema.Proofs.ContainmentTree
import UmlSchema.Proofs.Declared
import UmlSchema.Proofs.Depth
import UmlSchema.Proofs.Documentation
import UmlSchema.Proofs.Emission
import UmlSchema.Proofs.FieldNames
import UmlSchema.Proofs.FileSystem
import UmlSchema.Proofs.Inflection
import UmlSchema.Proofs.InterfaceWalk
import UmlSchema.Proofs.Legible
import UmlSchema.Proofs.Overriding
import UmlSchema.Proofs.Preview
import UmlSchema.Proofs.Queries
import UmlSchema.Proofs.Renderable
import UmlSchema.Proofs.Resolution
import UmlSchema.Proofs.Splitting
import UmlSchema.Proofs.WellKinded
import UmlSchema.Reading.Document
import UmlSchema.Reading.Node
import UmlSchema.Reading.Placement
import UmlSchema.Report.Emission
import UmlSchema.Report.Log
import UmlSchema.Report.Warning
import UmlSchema.Schema.Declaration
import UmlSchema.Schema.Directive
import UmlSchema.Schema.Doc
import UmlSchema.Schema.Document
import UmlSchema.Schema.FieldTable
import UmlSchema.Schema.Generation
import UmlSchema.Schema.Header
import UmlSchema.Schema.Layout
import UmlSchema.Schema.Lineage
import UmlSchema.Schema.TypeExpr
import UmlSchema.Table
import UmlSchema.Text.Basic
import UmlSchema.Text.Blank
import UmlSchema.Text.Digit
import UmlSchema.Text.Lines
import UmlSchema.Text.Lowercase
import UmlSchema.Text.Printable
import UmlSchema.Text.Quoted
import UmlSchema.Text.Style
import UmlSchema.Text.Utf8
import UmlSchema.Proofs.Diagrams
import UmlSchema.Proofs.Neighbours
import UmlSchema.Proofs.WriteSequence
import UmlSchema.Proofs.Alike
import UmlSchema.Proofs.Reproduction
import UmlSchema.Proofs.Layout
import UmlSchema.Proofs.LocalViews
import UmlSchema.Proofs.Traversal
import UmlSchema.Proofs.Extension
import UmlSchema.Proofs.Subtypes
import UmlSchema.Proofs.IgnoredParents
import UmlSchema.Proofs.IrregularWords
import UmlSchema.Proofs.WordEndings
import UmlSchema.Proofs.OrdinaryNouns
import UmlSchema.Proofs.Multiplicity
import UmlSchema.Proofs.UnknownMultiplicities
import UmlSchema.Proofs.SettledWords
import UmlSchema.Proofs.SharedBeginning
import UmlSchema.Proofs.EndNames
import UmlSchema.Proofs.QualifiedNames
import UmlSchema.Proofs.Banners
import UmlSchema.Proofs.DocBlocks
