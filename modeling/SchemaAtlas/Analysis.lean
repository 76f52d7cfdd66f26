/-
Analyses: the graph of a text, its issues, its layout and what was
noticed on the way, stamped with a moment. Only the settings can make
an analysis fail.

- `Config.analyze`: the analysis of a text under given settings.
- `Config.layout`: the layout of a graph under given settings.
- `Analysis.summary`: its counters.
-/
import SchemaAtlas.Calendar
import SchemaAtlas.Config.Basic
import SchemaAtlas.Extraction
import SchemaAtlas.Failure
import SchemaAtlas.Issue.Detect

namespace SchemaAtlas

/-- The result of analyzing a text. -/
structure Analysis where
  graph : SchemaGraph
  issues : List Issue
  layout : Layout
  diagnostics : List Diagnostic
  analyzedAt : Moment

-- ==================================================== summary

/-- Counters of an analysis. -/
structure Summary where
  schemas : Nat
  relationships : Nat
  issues : Nat
  errors : Nat
  warnings : Nat
  infos : Nat
  deriving DecidableEq, Repr

namespace Analysis

/-- How many issues have the given severity. -/
def count (a : Analysis) (severity : Severity) : Nat :=
  a.issues.countP fun i => i.severity = severity

/-- The counters of an analysis. -/
def summary (a : Analysis) : Summary where
  schemas := a.graph.schemas.length
  relationships := a.graph.relationships.length
  issues := a.issues.length
  errors := a.count .error
  warnings := a.count .warning
  infos := a.count .info

end Analysis

-- ==================================================== analyzing

/-- Unusable settings as a failure. -/
def ConfigFault.failure (f : ConfigFault) : Failure :=
  ⟨.config, f.message⟩

/-- A refused layout as a failure. -/
def SpacingFault.failure (f : SpacingFault) : Failure :=
  ⟨.layout, f.message⟩

namespace Config

/-- The layout of a graph under settings. Nothing is taken for granted:
the colors are read and the spacing is checked. -/
def layout (c : Config) (readColor : ColorReader) (g : SchemaGraph) : Except Failure Layout := do
  let options ← (c.layoutOptions readColor).mapError ConfigFault.failure
  (Layout.of options g).mapError SpacingFault.failure

/-- The analysis of a text. The settings are checked first. -/
def analyze (c : Config) (readColor : ColorReader) (input : Text) (now : Moment) :
    Except Failure Analysis := do
  (c.validate readColor).mapError ConfigFault.failure
  let e := extract input
  let issues := Issue.detect c.cascadeThreshold e.graph
  let layout ← c.layout readColor e.graph
  return ⟨e.graph, issues, layout, e.diagnostics, now⟩

end Config

end SchemaAtlas
