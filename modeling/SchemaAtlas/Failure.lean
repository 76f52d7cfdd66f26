/-
Failures: why a run or an analysis came to nothing. Sources never cause
one; what can fail lies around them.
-/
namespace SchemaAtlas

/-- Where a failure arose. -/
inductive FailureKind
  /-- Reading or writing a file. -/
  | io
  /-- The settings. -/
  | config
  /-- The layout's spacing. -/
  | layout
  /-- Printing a document. -/
  | document
  /-- An analysis that stopped on the way. -/
  | pipeline
  deriving DecidableEq, Repr

/-- What failed, and why. -/
structure Failure where
  kind : FailureKind
  cause : String
  deriving DecidableEq, Repr

namespace FailureKind

/-- What is said in front of the cause. -/
def opening : FailureKind → String
  | io => "I/O error"
  | config => "Configuration error"
  | layout => "Layout error"
  | document => "Export error"
  | pipeline => "Analysis failed"

/-- The code a failure is reported under. -/
def code : FailureKind → String
  | io => "schemagraph::io"
  | config => "schemagraph::config"
  | layout => "schemagraph::layout"
  | document => "schemagraph::export"
  | pipeline => "schemagraph::pipeline"

end FailureKind

/-- The failure in words. -/
def Failure.message (f : Failure) : String :=
  f.kind.opening ++ ": " ++ f.cause

end SchemaAtlas
