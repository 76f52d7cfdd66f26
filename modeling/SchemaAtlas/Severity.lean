/-
How serious a finding is. The order runs from the most serious to the
least: errors come before warnings, warnings before remarks.
-/
namespace SchemaAtlas

/-- How serious an issue or a diagnostic is. -/
inductive Severity
  | error
  | warning
  | info
  deriving DecidableEq, Repr, Ord

namespace Severity

/-- The word written for a severity. -/
def label : Severity → String
  | error => "error"
  | warning => "warning"
  | info => "info"

/-- Every severity, most serious first. -/
def all : List Severity :=
  [error, warning, info]

/-- Every severity in descending order. -/
def descending : List Severity :=
  all.mergeSort fun a b => (compare b a).isLE

end Severity

end SchemaAtlas
