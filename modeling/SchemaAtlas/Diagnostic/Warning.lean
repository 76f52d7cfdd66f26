/-
The causes of scan diagnostics. A warning records what was noticed and
where; `Warning.diagnostic` puts it into words. Every warning has one
primary span, the place of the problem.
-/
import SchemaAtlas.Diagnostic.Basic

namespace SchemaAtlas

/-- Something irregular noticed while reading sources. -/
inductive Warning
  /-- A string literal, opened by `quote`, that is never closed. -/
  | openString (literal : Span) (quote : Char)
  /-- A block comment that runs to the end of its unit. -/
  | openComment (comment : Span)
  /-- A schema whose body's opening brace has no matching brace. -/
  | openBody (name : String) (brace declared : Span)
  /-- A model call whose second argument is no schema identifier. -/
  | malformedRegistration (model : String) (call : Span)
  /-- A registration of a schema that no unit declares. -/
  | unknownSchema (model schema : String) (registration : Span)
  /-- A schema identifier that an earlier declaration already bound. -/
  | redeclared (name : String) (declaration earlier : Span)
  /-- Two schemas that resolve to one display name. -/
  | sharedDisplayName (earlierName name display : String) (declaration earlier : Span)
  deriving DecidableEq, Repr

namespace Warning

/-- The code a warning is reported under. -/
def code : Warning → DiagnosticCode
  | openString .. => .openString
  | openComment .. => .openComment
  | openBody .. => .openBody
  | malformedRegistration .. => .malformedRegistration
  | unknownSchema .. => .unknownSchema
  | redeclared .. => .redeclaration
  | sharedDisplayName .. => .sharedDisplayName

/-- The place of the problem. -/
def primary : Warning → Span
  | openString literal _ => literal
  | openComment comment => comment
  | openBody _ brace _ => brace
  | malformedRegistration _ call => call
  | unknownSchema _ _ registration => registration
  | redeclared _ declaration _ => declaration
  | sharedDisplayName _ _ _ declaration _ => declaration

/-- The warning with every span moved right by `n` bytes. -/
def shift (n : Nat) : Warning → Warning
  | openString literal quote => openString (literal.shift n) quote
  | openComment comment => openComment (comment.shift n)
  | openBody name brace declared => openBody name (brace.shift n) (declared.shift n)
  | malformedRegistration model call => malformedRegistration model (call.shift n)
  | unknownSchema model schema registration =>
      unknownSchema model schema (registration.shift n)
  | redeclared name declaration earlier =>
      redeclared name (declaration.shift n) (earlier.shift n)
  | sharedDisplayName earlierName name display declaration earlier =>
      sharedDisplayName earlierName name display (declaration.shift n) (earlier.shift n)

/-- The warnings `ws` with `others` behind them, each of those moved
right by `n` bytes. -/
def collect (ws others : List Warning) (n : Nat) : List Warning :=
  ws ++ others.map (·.shift n)

-- ==================================================== wording

private def quoted (name : String) : String :=
  "`" ++ name ++ "`"

/-- The diagnostic that reports a warning. -/
def diagnostic : Warning → Diagnostic
  | openString literal quote =>
      (Diagnostic.warning "unterminated string literal")
        |>.withCode .openString
        |>.withLabel literal DiagnosticCode.openString.description
        |>.withHelp ("add the closing " ++ quoted (String.singleton quote))
  | openComment comment =>
      (Diagnostic.warning "unterminated block comment")
        |>.withCode .openComment
        |>.withLabel comment DiagnosticCode.openComment.description
        |>.withHelp "add `*/` to close the comment"
  | openBody name brace declared =>
      (Diagnostic.warning ("schema " ++ quoted name ++ " has an unterminated body"))
        |>.withCode .openBody
        |>.withLabel brace "this brace is never closed"
        |>.withSecondary declared "declared here"
        |>.withHelp "add the closing `\x7d`; the declaration is ignored until then"
  | malformedRegistration model call =>
      (Diagnostic.warning
          ("model " ++ quoted model ++ " is not registered with a schema identifier"))
        |>.withCode .malformedRegistration
        |>.withLabel call DiagnosticCode.malformedRegistration.description
        |>.withHelp "pass the schema variable as the second argument"
  | unknownSchema model schema registration =>
      (Diagnostic.warning
          ("model " ++ quoted model ++ " is registered for unknown schema " ++ quoted schema))
        |>.withCode .unknownSchema
        |>.withLabel registration "registered here"
        |>.withHelp ("declare " ++ quoted schema ++ " in one of the analyzed files")
  | redeclared name declaration earlier =>
      (Diagnostic.warning ("schema " ++ quoted name ++ " is declared more than once"))
        |>.withCode .redeclaration
        |>.withLabel declaration "redeclared here"
        |>.withSecondary earlier "first declared here"
        |>.withHelp "the later declaration replaces the earlier one"
  | sharedDisplayName earlierName name display declaration earlier =>
      (Diagnostic.warning
          ("schemas " ++ quoted earlierName ++ " and " ++ quoted name ++ " both resolve to "
            ++ quoted display))
        |>.withCode .sharedDisplayName
        |>.withLabel declaration "this schema replaces the earlier one"
        |>.withSecondary earlier (quoted display ++ " first declared here")
        |>.withHelp "register one of the schemas under a different model name"

-- ==================================================== laws

/-- A warning's diagnostic carries its code. -/
theorem code_diagnostic (w : Warning) : w.diagnostic.code = some w.code := by
  cases w <;> rfl

/-- Every diagnostic of a scan is a warning. -/
theorem severity_diagnostic (w : Warning) : w.diagnostic.severity = .warning := by
  cases w <;> rfl

@[simp] theorem shift_zero (w : Warning) : w.shift 0 = w := by
  cases w <;> rfl

theorem code_shift (n : Nat) (w : Warning) : (w.shift n).code = w.code := by
  cases w <;> rfl

/-- What is where it belongs is collected as it is. -/
@[simp] theorem collect_zero (ws others : List Warning) : collect ws others 0 = ws ++ others := by
  have hsame : others.map (·.shift 0) = others := List.map_id'' shift_zero others
  rw [collect, hsame]

/-- Wording and moving commute: only spans depend on the position. -/
theorem diagnostic_shift (n : Nat) (w : Warning) :
    (w.shift n).diagnostic = w.diagnostic.shift n := by
  cases w <;> rfl

end Warning

end SchemaAtlas
