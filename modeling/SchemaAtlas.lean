import SchemaAtlas.Analysis
import SchemaAtlas.Calendar
import SchemaAtlas.Catalog.Basic
import SchemaAtlas.Catalog.Scan
import SchemaAtlas.Catalog.Shape
import SchemaAtlas.Color.Basic
import SchemaAtlas.Color.Css
import SchemaAtlas.Color.Named
import SchemaAtlas.CommandLine.Arguments
import SchemaAtlas.CommandLine.Configuration
import SchemaAtlas.CommandLine.Log
import SchemaAtlas.CommandLine.Report
import SchemaAtlas.CommandLine.Run
import SchemaAtlas.Config.Basic
import SchemaAtlas.Config.Toml
import SchemaAtlas.Decimal.Format
import SchemaAtlas.Decimal.Literal
import SchemaAtlas.Decimal.Shortest
import SchemaAtlas.Diagnostic.Basic
import SchemaAtlas.Diagnostic.Warning
import SchemaAtlas.Document
import SchemaAtlas.Example
import SchemaAtlas.Extraction
import SchemaAtlas.Failure
import SchemaAtlas.Field
import SchemaAtlas.FileTree
import SchemaAtlas.Graph.Adjacency
import SchemaAtlas.Graph.Basic
import SchemaAtlas.Graph.Cycle
import SchemaAtlas.Issue.Basic
import SchemaAtlas.Issue.Detect
import SchemaAtlas.Json.Printer
import SchemaAtlas.Json.Quoted
import SchemaAtlas.Json.Value
import SchemaAtlas.Layout.Basic
import SchemaAtlas.Layout.Drawing
import SchemaAtlas.Layout.Ranking
import SchemaAtlas.Layout.Spacing
import SchemaAtlas.Main
import SchemaAtlas.OrderedMap
import SchemaAtlas.Reference
import SchemaAtlas.Relationship
import SchemaAtlas.Session
import SchemaAtlas.Severity
import SchemaAtlas.SourceUnit
import SchemaAtlas.Span
import SchemaAtlas.Text.Basic
import SchemaAtlas.Text.Blank
import SchemaAtlas.Text.Hex
import SchemaAtlas.Text.Letter
import SchemaAtlas.Text.Line
import SchemaAtlas.Token.Basic
import SchemaAtlas.Token.Lexer
import SchemaAtlas.Toml.Quoted
import SchemaAtlas.Toml.Reader
import SchemaAtlas.Toml.Scalar
import SchemaAtlas.Toml.Table
import SchemaAtlas.Toml.Value
import SchemaAtlas.Proofs.Text.Classes
import SchemaAtlas.Proofs.Token.Lexeme
import SchemaAtlas.Proofs.Blueprint.Basic
import SchemaAtlas.Proofs.Blueprint.Scan
import SchemaAtlas.Proofs.Blueprint.Unit
import SchemaAtlas.Proofs.Catalog.Basic
import SchemaAtlas.Proofs.Blueprint.Catalog
import SchemaAtlas.Proofs.Blueprint.Fields
import SchemaAtlas.Proofs.Blueprint.Target
import SchemaAtlas.Proofs.Extraction.Assembly
import SchemaAtlas.Proofs.Blueprint.RoundTrip
import SchemaAtlas.Proofs.Extraction.Reference
import SchemaAtlas.Proofs.Extraction.WellFormed
import SchemaAtlas.Proofs.Graph.Adjacency
import SchemaAtlas.Proofs.Graph.Search
import SchemaAtlas.Proofs.Graph.CycleKey
import SchemaAtlas.Proofs.Issue.Circular
import SchemaAtlas.Proofs.Issue.Deduplication
import SchemaAtlas.Proofs.Layout.Walk
import SchemaAtlas.Proofs.Layout.Depth
import SchemaAtlas.Proofs.Token.Locality
import SchemaAtlas.Proofs.Token.Position
import SchemaAtlas.Proofs.Catalog.Body
import SchemaAtlas.Proofs.Token.Trim
import SchemaAtlas.Proofs.Field
import SchemaAtlas.Proofs.Catalog.Merge
import SchemaAtlas.Proofs.Catalog.Order
import SchemaAtlas.Proofs.Extraction.Collision
import SchemaAtlas.Proofs.Issue.Specification
import SchemaAtlas.Proofs.Catalog.Agreement
import SchemaAtlas.Proofs.Extraction.FileOrder
import SchemaAtlas.Proofs.Token.Spelling
import SchemaAtlas.Proofs.Catalog.Place
import SchemaAtlas.Proofs.Extraction.Place
import SchemaAtlas.Proofs.Token.Comment
import SchemaAtlas.Proofs.Reference
import SchemaAtlas.Proofs.Reference.Trim
import SchemaAtlas.Proofs.Catalog.Relocation
import SchemaAtlas.Proofs.Field.Comment
import SchemaAtlas.Proofs.Field.Append
import SchemaAtlas.Proofs.Extraction.Comment
import SchemaAtlas.Proofs.Analysis
import SchemaAtlas.Proofs.CommandLine.Sources
import SchemaAtlas.Proofs.Session
import SchemaAtlas.Proofs.FileTree
import SchemaAtlas.Proofs.CommandLine.Configuration
import SchemaAtlas.Proofs.CommandLine.Run
import SchemaAtlas.Proofs.Catalog.Grammar
import SchemaAtlas.Proofs.Catalog.Recognition
import SchemaAtlas.Proofs.Reference.ForeignKey
import SchemaAtlas.Proofs.Catalog.Recast
import SchemaAtlas.Proofs.Catalog.Outline
import SchemaAtlas.Proofs.SourceUnit.Line
import SchemaAtlas.Proofs.Token.Enclosure
import SchemaAtlas.Proofs.Catalog.Content
import SchemaAtlas.Proofs.Token.Content
import SchemaAtlas.Proofs.Token.Rule
import SchemaAtlas.Proofs.Token.Tiling
import SchemaAtlas.Proofs.Layout.Breadth
import SchemaAtlas.Proofs.Layout.Slot
import SchemaAtlas.Proofs.Layout.Bound
import SchemaAtlas.Proofs.Catalog.Suffix
import SchemaAtlas.Proofs.OrderedMap.Previous
import SchemaAtlas.Proofs.Extraction.Sequence
import SchemaAtlas.Proofs.Extraction.Report
import SchemaAtlas.Proofs.Extraction.Label
import SchemaAtlas.Proofs.Decimal.Binary32
import SchemaAtlas.Proofs.Decimal.Rounding
import SchemaAtlas.Proofs.Decimal.Arithmetic
import SchemaAtlas.Proofs.Decimal.Numeral
import SchemaAtlas.Proofs.Layout.Coordinate
import SchemaAtlas.Proofs.SourceUnit.Partition
import SchemaAtlas.Proofs.Layout.Edge
import SchemaAtlas.Proofs.Token.Boundary
import SchemaAtlas.Proofs.Document
