/-
Extraction: from source text to the schema graph. Every declaration
becomes a schema under its display name, every field that refers to
another schema a relationship. When two declarations share a display
name the later one replaces the earlier schema in its place, and the
relationships of both are kept.

- `Assembly.of`: the graph of a catalog.
- `extract`: the graph of a text, and the warnings on the way.
-/
import SchemaAtlas.Catalog.Scan
import SchemaAtlas.Graph.Basic
import SchemaAtlas.Reference

namespace SchemaAtlas

-- ==================================================== assembly

/-- A graph under construction. Each schema keeps the span of the
declaration it came from. -/
structure Assembly where
  schemas : OrderedMap String (SchemaNode × Span)
  relationships : List Relationship
  warnings : List Warning

namespace Assembly

/-- The assembly of no declarations. -/
def empty : Assembly :=
  ⟨.empty, [], []⟩

/-- The assembly with one more declaration of the catalog. -/
def add (catalog : Catalog) (a : Assembly) (d : Declaration) : Assembly :=
  let id := catalog.displayName d.name
  let fields := Field.split d.body
  { schemas := a.schemas.insert id (⟨id, d.name, fields.map Field.name⟩, d.span)
    relationships :=
      a.relationships ++ fields.filterMap fun f => f.relationship? id catalog
    warnings :=
      match a.schemas.get? id with
      | some (earlier, span) =>
          a.warnings ++ [.sharedDisplayName earlier.declaredName d.name id d.span span]
      | none => a.warnings }

/-- The assembly of a catalog's declarations, in their order. -/
def of (catalog : Catalog) : Assembly :=
  catalog.declarations.values.foldl (add catalog) empty

/-- The assembled graph. -/
def graph (a : Assembly) : SchemaGraph :=
  ⟨a.schemas.values.map Prod.fst, a.relationships⟩

end Assembly

-- ==================================================== extraction

/-- The graph of a text and what was noticed while reading it. -/
structure Extraction where
  graph : SchemaGraph
  warnings : List Warning

/-- The warnings of an extraction in words. -/
def Extraction.diagnostics (e : Extraction) : List Diagnostic :=
  e.warnings.map Warning.diagnostic

/-- The schema graph of a text. Warnings of the scan come before those
of the assembly. -/
def extract (input : Text) : Extraction :=
  let catalog := Catalog.scan input
  let assembly := Assembly.of catalog
  ⟨assembly.graph, catalog.warnings ++ assembly.warnings⟩

end SchemaAtlas
