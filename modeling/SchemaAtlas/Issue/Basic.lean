/-
Structural issues of a schema graph. An issue records what was found;
its category, severity and message follow from that.
-/
import SchemaAtlas.Json.Value
import SchemaAtlas.Severity

namespace SchemaAtlas

/-- The kind of risk an issue describes. -/
inductive IssueCategory
  | brokenReference
  | circularDependency
  | orphanRisk
  | cascadeRisk
  deriving DecidableEq, Repr

namespace IssueCategory

/-- The word written for a category. -/
def label : IssueCategory → String
  | brokenReference => "broken-reference"
  | circularDependency => "circular-dependency"
  | orphanRisk => "orphan-risk"
  | cascadeRisk => "cascade-risk"

/-- Every category. -/
def all : List IssueCategory :=
  [brokenReference, circularDependency, orphanRisk, cascadeRisk]

/-- The severity all issues of a category share. -/
def severity : IssueCategory → Severity
  | brokenReference => .error
  | circularDependency | orphanRisk => .warning
  | cascadeRisk => .info

end IssueCategory

-- ==================================================== issues

/-- One finding about a graph, reported against the schema `subject`. -/
inductive Issue
  /-- The field `field` of `subject` refers to a schema that does not exist. -/
  | brokenReference (subject field target : String)
  /-- A cycle met from `subject`; the path ends where it starts. -/
  | circularDependency (subject : String) (path : List String)
  /-- The schema `subject` refers to nothing but is referred to. -/
  | orphanRisk (subject : String) (referencers : List String)
  /-- The schema `subject` holds many foreign keys. -/
  | cascadeRisk (subject : String) (foreignKeys : Nat) (targets : List String)
  deriving DecidableEq, Repr

namespace Issue

/-- The schema an issue is reported against. -/
def subject : Issue → String
  | brokenReference subject _ _ => subject
  | circularDependency subject _ => subject
  | orphanRisk subject _ => subject
  | cascadeRisk subject _ _ => subject

/-- The category of an issue. -/
def category : Issue → IssueCategory
  | brokenReference .. => .brokenReference
  | circularDependency .. => .circularDependency
  | orphanRisk .. => .orphanRisk
  | cascadeRisk .. => .cascadeRisk

/-- The severity of an issue. -/
def severity (i : Issue) : Severity :=
  i.category.severity

private def named (name : String) : String :=
  "\"" ++ name ++ "\""

/-- The issue in words. -/
def message : Issue → String
  | brokenReference subject field target =>
      named (subject ++ "." ++ field) ++ " references " ++ named target
        ++ " which doesn't exist in your schemas"
  | circularDependency _ path =>
      "Circular reference detected: " ++ String.intercalate " → " path
  | orphanRisk subject referencers =>
      named subject ++ " has no outgoing references. If "
        ++ String.intercalate ", " referencers
        ++ " documents are deleted, orphans may remain"
  | cascadeRisk subject foreignKeys targets =>
      named subject ++ " references " ++ Nat.repr foreignKeys ++ " other schemas ("
        ++ String.intercalate ", " targets ++ "). Consider cascade deletion strategy"

/-- The member that carries what is particular to the issue. -/
def detail : Issue → String × Json.Value
  | brokenReference _ _ target => ("targetSchema", .string target)
  | circularDependency _ path => ("cyclePath", .strings path)
  | orphanRisk _ referencers => ("referencingSchemas", .strings referencers)
  | cascadeRisk _ _ targets => ("targetSchemas", .strings targets)

/-- The one-line form: severity, category in brackets, message. -/
def display (i : Issue) : String :=
  i.severity.label ++ "[" ++ i.category.label ++ "]: " ++ i.message

/-- An issue as part of a document. -/
def document (i : Issue) : Json.Value :=
  .object
    [("severity", .string i.severity.label),
     ("category", .string i.category.label),
     ("message", .string i.message),
     ("subjectSchema", .string i.subject),
     i.detail]

end Issue

end SchemaAtlas
