/-
The log of a run: records with a level, a message and named values.
-/
import SchemaAtlas.CommandLine.Report

namespace SchemaAtlas

/-- How much a record matters, most first. -/
inductive LogLevel
  | error
  | warn
  | info
  | debug
  | trace
  deriving DecidableEq, Repr, Ord

namespace LogLevel

/-- The word written for a level. -/
def label : LogLevel → String
  | error => "ERROR"
  | warn => "WARN"
  | info => "INFO"
  | debug => "DEBUG"
  | trace => "TRACE"

/-- The name of a level. -/
def name : LogLevel → String
  | error => "Error"
  | warn => "Warn"
  | info => "Info"
  | debug => "Debug"
  | trace => "Trace"

/-- Every level. -/
def all : List LogLevel :=
  [error, warn, info, debug, trace]

/-- The level of records about an issue. -/
def ofSeverity : Severity → LogLevel
  | .error => error
  | .warning => warn
  | .info => info

end LogLevel

/-- Which records are shown: those up to a level, or none. -/
abbrev LogFilter := Option LogLevel

namespace LogFilter

/-- The filter of a name, in any case. -/
def ofName? (name : String) : Option LogFilter :=
  let upper := String.ofList (name.toList.map Char.toUpper)
  if upper = "OFF" then some none
  else (LogLevel.all.find? fun l => l.label = upper).map some

/-- The name of a filter. -/
def name (f : LogFilter) : String :=
  (f.map LogLevel.name).getD "Off"

/-- Whether a filter shows records of a level. -/
def shows (f : LogFilter) (level : LogLevel) : Bool :=
  f.any fun limit => (compare level limit).isLE

end LogFilter

-- ==================================================== records

/-- What a record says. -/
inductive LogMessage
  | text (s : String)
  | report (r : Report)

/-- One record of a log. -/
structure LogRecord where
  level : LogLevel
  message : LogMessage
  fields : List (String × String)

/-- The message in words. -/
def LogMessage.words : LogMessage → String
  | text s => s
  | report r => r.text

namespace LogRecord

/-- A record of plain words. -/
def plain (level : LogLevel) (message : String) (fields : List (String × String)) : LogRecord :=
  ⟨level, .text message, fields⟩

/-- The record as it is shown. -/
def shown (r : LogRecord) : String :=
  String.intercalate " "
    (r.level.label :: r.message.words :: r.fields.map fun f => f.1 ++ "=" ++ f.2)

end LogRecord

end SchemaAtlas
