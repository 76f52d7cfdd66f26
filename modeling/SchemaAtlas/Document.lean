/-
The documents of an analysis, as indented JSON.

- report: moment, counters, schemas, relationships and issues in brief
- graph: schemas, relationships and issues in full
- layout: placed schemas and styled edges
-/
import SchemaAtlas.Analysis
import SchemaAtlas.Json.Printer

namespace SchemaAtlas

/-- The documents an analysis can be written as. -/
inductive DocumentKind
  /-- A dated report: counters and everything found, in brief. -/
  | report
  | graph
  | layout
  deriving DecidableEq, Repr

-- ==================================================== report

private def briefSchema (n : SchemaNode) : Json.Value :=
  .object [("name", .string n.id), ("fields", .strings n.fields)]

private def briefRelationship (r : Relationship) : Json.Value :=
  .object
    [("from", .string r.source),
     ("to", .string r.target),
     ("field", .string r.field),
     ("type", .string r.kind.label),
     ("refType", .string r.mechanism.label)]

private def briefIssue (i : Issue) : Json.Value :=
  .object
    [("severity", .string i.severity.label),
     ("type", .string i.category.label),
     ("message", .string i.message)]

namespace Analysis

/-- Moment, counters and everything found, in brief. -/
def reportDocument (a : Analysis) : Json.Value :=
  .object
    [("timestamp", .string a.analyzedAt.text),
     ("summary", .object
       [("totalSchemas", .natural a.graph.schemas.length),
        ("totalRelationships", .natural a.graph.relationships.length),
        ("issuesFound", .natural a.issues.length)]),
     ("schemas", .array (a.graph.schemas.map briefSchema)),
     ("relationships", .array (a.graph.relationships.map briefRelationship)),
     ("issues", .array (a.issues.map briefIssue))]

-- ==================================================== all documents

/-- The graph and its issues, in full. -/
def graphDocument (a : Analysis) : Json.Value :=
  .object (a.graph.members ++ [("issues", .array (a.issues.map Issue.document))])

/-- A document of an analysis. -/
def document (a : Analysis) : DocumentKind → Json.Value
  | .report => a.reportDocument
  | .graph => a.graphDocument
  | .layout => a.layout.document

/-- The indented text of a document. -/
def render (a : Analysis) (kind : DocumentKind) : String :=
  Json.pretty (a.document kind)

/-- The text of a document, by a printer that may refuse it. -/
def print (a : Analysis) (printJson : Json.Printer) (kind : DocumentKind) :
    Except Failure String :=
  (printJson (a.document kind)).mapError fun reason => ⟨.document, reason⟩

end Analysis

end SchemaAtlas
