import ResourceGraph.Analysis
import ResourceGraph.Diagnostic.Basic
import ResourceGraph.Diagnostic.Report
import ResourceGraph.Expression.Scan
import ResourceGraph.Expression.Token
import ResourceGraph.FieldType
import ResourceGraph.Json.Basic
import ResourceGraph.Json.FieldType
import ResourceGraph.Node.Basic
import ResourceGraph.Node.Json
import ResourceGraph.Node.Reading
import ResourceGraph.Node.Yaml
import ResourceGraph.Number.Basic
import ResourceGraph.Number.Reading
import ResourceGraph.Number.Shortest
import ResourceGraph.Number.Text
import ResourceGraph.Path
import ResourceGraph.Proofs.Layout.Block
import ResourceGraph.Proofs.Text.Solid
import ResourceGraph.QuickFix
import ResourceGraph.Reference
import ResourceGraph.Resolver.Basic
import ResourceGraph.Resolver.ListItem
import ResourceGraph.Resolver.Locate
import ResourceGraph.Session.Registry
import ResourceGraph.Session.Schedule
import ResourceGraph.Settings.Basic
import ResourceGraph.Settings.Directory
import ResourceGraph.Settings.Reading
import ResourceGraph.Text.Blank
import ResourceGraph.Text.Edit
import ResourceGraph.Text.Entry
import ResourceGraph.Text.Line
import ResourceGraph.Text.Position
import ResourceGraph.Text.Printable
import ResourceGraph.Text.Quoted
import ResourceGraph.Text.Source
import ResourceGraph.Text.Split
import ResourceGraph.Text.Width
import ResourceGraph.Validation.Basic
import ResourceGraph.Validation.Document
import ResourceGraph.Validation.Header
import ResourceGraph.Validation.Resources
import ResourceGraph.Validation.Schema
import ResourceGraph.Yaml.Cursor
import ResourceGraph.Yaml.Document
import ResourceGraph.Yaml.Event
import ResourceGraph.Yaml.Fault
import ResourceGraph.Yaml.Intake
import ResourceGraph.Yaml.Mark
import ResourceGraph.Yaml.ReadFault
import ResourceGraph.Yaml.Reading
import ResourceGraph.Yaml.Scalar
import ResourceGraph.Yaml.ScalarText
import ResourceGraph.Yaml.Token.Basic
import ResourceGraph.Yaml.Token.Block
import ResourceGraph.Yaml.Token.Folding
import ResourceGraph.Yaml.Token.Plain
import ResourceGraph.Yaml.Token.Property
import ResourceGraph.Yaml.Token.Queue
import ResourceGraph.Yaml.Token.Quoted
import ResourceGraph.Yaml.Value
import ResourceGraph.Proofs.Text.Word
import ResourceGraph.Proofs.Layout.Rows
import ResourceGraph.Proofs.Layout.Site
import ResourceGraph.Proofs.Resolver.Walk
import ResourceGraph.Proofs.Resolver.Printed
import ResourceGraph.Proofs.Session.History
import ResourceGraph.Proofs.Session.Publication
import ResourceGraph.Proofs.Validation.Parts
import ResourceGraph.Proofs.Validation.Placement
import ResourceGraph.Proofs.FieldType.Grammar
import ResourceGraph.Proofs.Validation.Acceptance
import ResourceGraph.Proofs.Session.Delivery
import ResourceGraph.Proofs.Expression.Scan
import ResourceGraph.Proofs.Expression.Token
import ResourceGraph.Proofs.Expression.Tiling
import ResourceGraph.Proofs.Layout.Parts
import ResourceGraph.Proofs.Resolver.Missing
import ResourceGraph.Proofs.Reference.Declared
import ResourceGraph.Proofs.Validation.Independence
import ResourceGraph.Proofs.Text.Extent
import ResourceGraph.Proofs.Resolver.Extent
import ResourceGraph.Proofs.Validation.Extent
import ResourceGraph.Proofs.Reference.Definition
import ResourceGraph.Proofs.Yaml.PlainWord
import ResourceGraph.Proofs.Yaml.Entry
import ResourceGraph.Proofs.Yaml.Heading
import ResourceGraph.Proofs.Text.Edit
import ResourceGraph.Proofs.Validation.Header
import ResourceGraph.Proofs.QuickFix.Convergence
import ResourceGraph.Proofs.Validation.Shape
import ResourceGraph.Proofs.Text.Written
import ResourceGraph.Proofs.Resolver.Soundness
import ResourceGraph.Proofs.Resolver.Lookup
import ResourceGraph.Proofs.Resolver.Order
import ResourceGraph.Proofs.Reference.Search
import ResourceGraph.Proofs.Reference.Termination
import ResourceGraph.Proofs.Reference.Links
import ResourceGraph.Proofs.Text.Displacement
import ResourceGraph.Proofs.Resolver.Displacement
import ResourceGraph.Proofs.Reference.Displacement
import ResourceGraph.Proofs.FieldType.Recording
import ResourceGraph.Proofs.FieldType.Printing
import ResourceGraph.Proofs.Text.Replacement
import ResourceGraph.Proofs.Text.SharedStart
import ResourceGraph.Proofs.Validation.Anchor
import ResourceGraph.Proofs.Validation.Traversal
import ResourceGraph.Proofs.Validation.ResourceIds
import ResourceGraph.Proofs.Session.WakeUp
import ResourceGraph.Proofs.Text.Value
import ResourceGraph.Proofs.Yaml.FaultLabel
import ResourceGraph.Proofs.Number.Integer
import ResourceGraph.Proofs.Node.Serialization
import ResourceGraph.Proofs.Session.Isolation
import ResourceGraph.Proofs.Resolver.ListPartition
import ResourceGraph.Proofs.Text.Offset
import ResourceGraph.Proofs.Text.KeyLine
