/-
Diagnostics: what a reader is shown about a text. A diagnostic has a
severity, perhaps a code, a message, labels that mark spans of the
text, and perhaps a line of help. `Diagnostic.display` is its one-line
form, `warning[W001]: message`.
-/
import SchemaAtlas.Severity
import SchemaAtlas.Span

namespace SchemaAtlas

/-- What kind of irregularity a scan diagnostic reports. -/
inductive DiagnosticCode
  | openString
  | openComment
  | openBody
  | malformedRegistration
  | unknownSchema
  | redeclaration
  | sharedDisplayName
  deriving DecidableEq, Repr

namespace DiagnosticCode

/-- The code as it is written. The first digit names the stage: lexing,
matching of declarations, resolution of names. -/
def label : DiagnosticCode → String
  | openString => "W001"
  | openComment => "W002"
  | openBody => "W100"
  | malformedRegistration => "W101"
  | unknownSchema => "W200"
  | redeclaration => "W201"
  | sharedDisplayName => "W202"

/-- A short description of what the code stands for. -/
def description : DiagnosticCode → String
  | openString => "unterminated string literal"
  | openComment => "unterminated block comment"
  | openBody => "unterminated schema body"
  | malformedRegistration => "malformed model registration"
  | unknownSchema => "registration for unknown schema"
  | redeclaration => "schema declared more than once"
  | sharedDisplayName => "duplicate display name"

/-- Every code, in the order of the labels. -/
def all : List DiagnosticCode :=
  [openString, openComment, openBody, malformedRegistration, unknownSchema, redeclaration,
   sharedDisplayName]

/-- The code written `label`, if there is one. -/
def ofLabel? (label : String) : Option DiagnosticCode :=
  all.find? fun c => c.label == label

end DiagnosticCode

-- ==================================================== labels

/-- A message attached to a span. The primary label marks the problem,
secondary labels give context. -/
structure Label where
  span : Span
  message : String
  isPrimary : Bool
  deriving DecidableEq, Repr

/-- The label moved right by `n` bytes. -/
def Label.shift (l : Label) (n : Nat) : Label :=
  { l with span := l.span.shift n }

-- ==================================================== diagnostics

/-- One thing a reader is told about a text. -/
structure Diagnostic where
  severity : Severity
  code : Option DiagnosticCode
  message : String
  labels : List Label
  help : Option String
  deriving DecidableEq, Repr

namespace Diagnostic

/-- A warning without code, labels or help. -/
def warning (message : String) : Diagnostic :=
  ⟨.warning, none, message, [], none⟩

/-- The diagnostic under the given code. -/
def withCode (d : Diagnostic) (code : DiagnosticCode) : Diagnostic :=
  { d with code := some code }

/-- The diagnostic with one more primary label. -/
def withLabel (d : Diagnostic) (span : Span) (message : String) : Diagnostic :=
  { d with labels := d.labels ++ [⟨span, message, true⟩] }

/-- The diagnostic with one more secondary label. -/
def withSecondary (d : Diagnostic) (span : Span) (message : String) : Diagnostic :=
  { d with labels := d.labels ++ [⟨span, message, false⟩] }

/-- The diagnostic with the given help, in place of any earlier one. -/
def withHelp (d : Diagnostic) (help : String) : Diagnostic :=
  { d with help := some help }

/-- The diagnostic with every label moved right by `n` bytes. -/
def shift (d : Diagnostic) (n : Nat) : Diagnostic :=
  { d with labels := d.labels.map (·.shift n) }

/-- The one-line form: severity, code in brackets if any, message. -/
def display (d : Diagnostic) : String :=
  let code := match d.code with
    | some c => "[" ++ c.label ++ "]"
    | none => ""
  d.severity.label ++ code ++ ": " ++ d.message

end Diagnostic

end SchemaAtlas
