/-
Reports: what the command line shows for a diagnostic or a failure. A
diagnostic is shown on the text it is about, a failure by itself.
-/
import SchemaAtlas.Diagnostic.Basic
import SchemaAtlas.Failure
import SchemaAtlas.Text.Basic

namespace SchemaAtlas

/-- Everything a report shows. -/
structure Report where
  message : String
  code : Option String
  severity : Option Severity
  help : Option String
  /-- The text that the labels mark. -/
  source : Option Text
  /-- What lies behind a failure, where that is told apart. -/
  cause : Option String
  labels : List Label
  deriving DecidableEq, Repr

namespace Report

/-- The word for a severity in reports. -/
def severityWord : Severity → String
  | .error => "Error"
  | .warning => "Warning"
  | .info => "Advice"

/-- The report of a diagnostic about a text. -/
def ofDiagnostic (source : Text) (d : Diagnostic) : Report where
  message := d.message
  code := d.code.map DiagnosticCode.label
  severity := some d.severity
  help := d.help
  source := some source
  cause := none
  labels := d.labels

/-- What to look at after a failure of the given kind. -/
def advice : FailureKind → Option String
  | .config =>
      some "check the [layout], [style] and [analysis] sections of the configuration file"
  | .io | .layout | .document | .pipeline => none

/-- What lies behind a failure. Only what the system said about a file,
and the printer about a document, is told apart. -/
def cause? (f : Failure) : Option String :=
  match f.kind with
  | .io | .document => some f.cause
  | .config | .layout | .pipeline => none

/-- The report of a failure. -/
def ofFailure (f : Failure) : Report where
  message := f.message
  code := some f.kind.code
  severity := none
  help := advice f.kind
  source := none
  cause := cause? f
  labels := []

-- ==================================================== words

/-- A label as a line. -/
def labelLine (l : Label) : String :=
  (if l.isPrimary then "  at " else "  see ") ++ Nat.repr l.span.start ++ ".."
    ++ Nat.repr l.span.stop ++ ": " ++ l.message

/-- The report in lines: what it says, what lies behind it, the places
it marks, and what helps. -/
def text (r : Report) : String :=
  String.intercalate "\n" <|
    (r.message ++ ((r.code.map fun c => " [" ++ c ++ "]").getD ""))
      :: r.cause.toList.map ("  cause: " ++ ·)
      ++ r.labels.map labelLine
      ++ r.help.toList.map ("  help: " ++ ·)

end Report

end SchemaAtlas
