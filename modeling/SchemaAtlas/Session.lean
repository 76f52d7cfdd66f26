/-
Sessions: settings together with the last analysis that succeeded. An
analysis that fails, or stops on the way, is reported and leaves the
published one in place.

- `Session.run`: any pipeline under the session's settings.
- `Session.analyze`: the analysis of a text.
-/
import SchemaAtlas.Analysis

namespace SchemaAtlas

/-- How a pipeline ends. -/
inductive PipelineEnd
  | returned (outcome : Except Failure Analysis)
  /-- The pipeline stopped in the middle, with a reason if it gave one. -/
  | stopped (reason : Option String)

/-- What a pipeline comes to. One that stopped has failed. -/
def PipelineEnd.outcome : PipelineEnd → Except Failure Analysis
  | returned outcome => outcome
  | stopped reason => .error ⟨.pipeline, reason.getD "unknown panic"⟩

/-- Settings, and the analysis published under them. -/
structure Session where
  config : Config := {}
  current : Option Analysis := none

namespace Session

/-- The session after an analysis came out as given. -/
def publish (s : Session) : Except Failure Analysis → Session
  | .ok a => { s with current := some a }
  | .error _ => s

/-- Runs a pipeline under the session's settings and publishes what it
comes to. -/
def run (s : Session) (pipeline : Config → PipelineEnd) : Except Failure Analysis × Session :=
  let outcome := (pipeline s.config).outcome
  (outcome, s.publish outcome)

/-- Analyzes a text and publishes the result. -/
def analyze (s : Session) (readColor : ColorReader) (input : Text) (now : Moment) :
    Except Failure Analysis × Session :=
  s.run fun config => .returned (config.analyze readColor input now)

/-- The session without a published analysis. -/
def clear (s : Session) : Session :=
  { s with current := none }

end Session

end SchemaAtlas
