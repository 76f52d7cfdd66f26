/-
Sessions over their whole life. Whatever is called on a session, and
however the pipelines end, what is published is the last analysis that
succeeded and was not cleared since. A call that fails is told so and
leaves the session as it was; no call changes the settings.

- `Session.step`: one call; `Session.after`: calls one behind the other.
- `Session.IsLatest`: the last analysis that succeeded, said of the
  calls alone.
- `Session.step_of_ok`, `Session.step_of_error`, `Session.step_of_clear`:
  what one call does.
- `Session.current_after`: what is published after any calls.
- `Session.Publishes`, `Session.publishes_latest`: the whole.
-/
import Mathlib.Data.List.Induction
import SchemaAtlas.Session

namespace SchemaAtlas

/-- What can be called on a session. -/
inductive SessionCall
  | analyze (input : Text) (now : Moment)
  /-- Any pipeline, one that stops on the way included. -/
  | run (pipeline : Config → PipelineEnd)
  | clear

/-- What a call comes to under given settings, if it analyzes at all. -/
def SessionCall.outcome? (readColor : ColorReader) (c : Config) :
    SessionCall → Option (Except Failure Analysis)
  | analyze input now => some (c.analyze readColor input now)
  | run pipeline => some (pipeline c).outcome
  | clear => none

namespace Session

variable {readColor : ColorReader}

-- ==================================================== calls

/-- What a call returns, and the session it leaves behind. -/
def step (readColor : ColorReader) (s : Session) :
    SessionCall → Option (Except Failure Analysis) × Session
  | .analyze input now =>
      let r := s.analyze readColor input now
      (some r.1, r.2)
  | .run pipeline =>
      let r := s.run pipeline
      (some r.1, r.2)
  | .clear => (none, s.clear)

/-- The session after calls one behind the other. -/
def after (readColor : ColorReader) (s : Session) (calls : List SessionCall) : Session :=
  calls.foldl (fun s call => (s.step readColor call).2) s

theorem after_concat (s : Session) (calls : List SessionCall) (call : SessionCall) :
    s.after readColor (calls ++ [call]) = ((s.after readColor calls).step readColor call).2 := by
  rw [after, List.foldl_append]
  rfl

-- ==================================================== one call

/-- A call returns what it comes to, and that is what the session
publishes; without an outcome the session is cleared. -/
theorem step_eq (s : Session) (call : SessionCall) :
    s.step readColor call =
      (call.outcome? readColor s.config,
        ((call.outcome? readColor s.config).map s.publish).getD s.clear) := by
  cases call <;> rfl

theorem step_of_ok {s : Session} {call : SessionCall} {a : Analysis}
    (h : call.outcome? readColor s.config = some (.ok a)) :
    s.step readColor call = (some (.ok a), { s with current := some a }) := by
  rw [step_eq, h]
  rfl

/-- A call that fails leaves everything as it was. -/
theorem step_of_error {s : Session} {call : SessionCall} {f : Failure}
    (h : call.outcome? readColor s.config = some (.error f)) :
    s.step readColor call = (some (.error f), s) := by
  rw [step_eq, h]
  rfl

theorem step_of_clear {s : Session} {call : SessionCall}
    (h : call.outcome? readColor s.config = none) :
    s.step readColor call = (none, { s with current := none }) := by
  rw [step_eq, h]
  rfl

/-- So does a pipeline that stops on the way. -/
theorem run_of_stopped {s : Session} {pipeline : Config → PipelineEnd} {reason : Option String}
    (h : pipeline s.config = .stopped reason) :
    s.run pipeline = (.error ⟨.pipeline, reason.getD "unknown panic"⟩, s) := by
  unfold run
  rw [h]
  rfl

theorem config_step (s : Session) (call : SessionCall) :
    (s.step readColor call).2.config = s.config := by
  cases h : call.outcome? readColor s.config with
  | none => rw [step_of_clear h]
  | some outcome =>
      cases outcome with
      | ok a => rw [step_of_ok h]
      | error f => rw [step_of_error h]

-- ==================================================== all calls

/-- The settings are the same after all calls. -/
theorem config_after (s : Session) (calls : List SessionCall) :
    (s.after readColor calls).config = s.config := by
  induction calls using List.reverseRecOn with
  | nil => rfl
  | append_singleton calls call ih => rw [after_concat, config_step, ih]

/-- The analysis came out of a call behind which every call failed, so
that none succeeded and none cleared the session. -/
def IsLatest (readColor : ColorReader) (c : Config) (calls : List SessionCall) (a : Analysis) :
    Prop :=
  ∃ before call later, calls = before ++ call :: later ∧ call.outcome? readColor c = some (.ok a) ∧
    ∀ k ∈ later, ∃ f, k.outcome? readColor c = some (.error f)

theorem not_isLatest_nil (c : Config) (a : Analysis) : ¬ IsLatest readColor c [] a := by
  rintro ⟨before, call, later, hcalls, -⟩
  simp at hcalls

theorem isLatest_concat {c : Config} {calls : List SessionCall} {call : SessionCall}
    {a : Analysis} :
    IsLatest readColor c (calls ++ [call]) a ↔
      call.outcome? readColor c = some (.ok a) ∨
        (∃ f, call.outcome? readColor c = some (.error f)) ∧ IsLatest readColor c calls a := by
  constructor
  · rintro ⟨before, k, later, hcalls, hk, hlater⟩
    rcases List.eq_nil_or_concat later with rfl | ⟨later, last, rfl⟩
    · obtain ⟨-, hlast⟩ := List.append_inj' hcalls rfl
      cases hlast
      exact Or.inl hk
    · rw [List.concat_eq_append] at hcalls hlater
      rw [← List.cons_append, ← List.append_assoc] at hcalls
      obtain ⟨rfl, hlast⟩ := List.append_inj' hcalls rfl
      cases hlast
      exact Or.inr ⟨hlater _ (by simp), before, k, later, rfl, hk,
        fun j hj => hlater j (List.mem_append_left _ hj)⟩
  · rintro (hcall | ⟨hcall, before, k, later, rfl, hk, hlater⟩)
    · exact ⟨calls, call, [], rfl, hcall, List.forall_mem_nil _⟩
    · refine ⟨before, k, later ++ [call], by simp, hk, ?_⟩
      intro j hj
      rcases List.mem_append.1 hj with hj | hj
      · exact hlater j hj
      · rw [List.mem_singleton.1 hj]
        exact hcall

/-- What is published after any calls on a new session. -/
theorem current_after (c : Config) (calls : List SessionCall) (a : Analysis) :
    (({ config := c } : Session).after readColor calls).current = some a ↔
      IsLatest readColor c calls a := by
  induction calls using List.reverseRecOn with
  | nil =>
      have hnone : (({ config := c } : Session).after readColor []).current = none := rfl
      rw [hnone]
      exact iff_of_false (by simp) (not_isLatest_nil c a)
  | append_singleton calls call ih =>
      have hconfig : (({ config := c } : Session).after readColor calls).config = c :=
        config_after _ calls
      rw [after_concat, isLatest_concat, ← ih]
      generalize ({ config := c } : Session).after readColor calls = s at hconfig
      subst hconfig
      cases h : call.outcome? readColor s.config with
      | none => simp [step_of_clear h]
      | some outcome =>
          cases outcome with
          | ok b => simp [step_of_ok h]
          | error f => simp [step_of_error h]

-- ==================================================== the whole

/-- What a session is after calls, and what one call more does. -/
structure Publishes (readColor : ColorReader) (c : Config) (calls : List SessionCall)
    (s : Session) : Prop where
  /-- The settings are those given. -/
  config : s.config = c
  /-- The published analysis is the last one that succeeded and was not
  cleared since, or none if there is none. -/
  latest : ∀ a, s.current = some a ↔ IsLatest readColor c calls a
  nothing : s.current = none ↔ ¬ ∃ a, IsLatest readColor c calls a
  /-- One call more returns what it comes to. An analysis is published. -/
  onSuccess : ∀ call a, call.outcome? readColor c = some (.ok a) →
    s.step readColor call = (some (.ok a), { s with current := some a })
  /-- A failure leaves the session as it was. -/
  onFailure : ∀ call f, call.outcome? readColor c = some (.error f) →
    s.step readColor call = (some (.error f), s)
  /-- So does a pipeline that stopped on the way. -/
  onStop : ∀ pipeline reason, pipeline c = .stopped reason →
    s.run pipeline = (.error ⟨.pipeline, reason.getD "unknown panic"⟩, s)
  /-- A clearing call leaves nothing published. -/
  onClear : s.step readColor .clear = (none, { s with current := none })

/-- For any settings and any calls, however colors are read. -/
theorem publishes_latest (readColor : ColorReader) (c : Config) (calls : List SessionCall) :
    Publishes readColor c calls (({ config := c } : Session).after readColor calls) := by
  have hconfig : (({ config := c } : Session).after readColor calls).config = c :=
    config_after _ calls
  have hcurrent : ∀ a, (({ config := c } : Session).after readColor calls).current = some a ↔
      IsLatest readColor c calls a := current_after c calls
  generalize ({ config := c } : Session).after readColor calls = s at hconfig hcurrent
  refine ⟨hconfig, hcurrent, ?nothing, ?onSuccess, ?onFailure, ?onStop, rfl⟩
  case nothing =>
    rw [Option.eq_none_iff_forall_ne_some, not_exists]
    exact forall_congr' fun a => not_congr (hcurrent a)
  case onSuccess =>
    intro call a h
    exact step_of_ok (hconfig ▸ h)
  case onFailure =>
    intro call f h
    exact step_of_error (hconfig ▸ h)
  case onStop =>
    intro pipeline reason h
    exact run_of_stopped (hconfig ▸ h)

end Session

end SchemaAtlas
