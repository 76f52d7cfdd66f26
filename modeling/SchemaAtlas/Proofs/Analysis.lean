/-
Settings decide whether an analysis fails. They are looked at three
times: when they are checked, when their colors are read for the layout,
and when the layout is asked to use their spacing. What passes the first
look passes the other two, whatever the graph; and nothing between them
can fail. So a text is analyzed exactly if the settings pass the check,
and a failure tells what the check found. How colors are read does not
matter: the same reader is asked each time.

- `Config.validate_eq_ok_iff`: which settings pass the check.
- `Config.layout_of_validate`: a layout under settings that passed.
- `Config.analyze_eq_ok_iff`, `Config.analyze_eq_error_iff`: an analysis
  and its failure.
- `Config.CheckDecides`: what a check decides.
- `Config.analyze_iff_validate`: the whole.
-/
import SchemaAtlas.Analysis
import SchemaAtlas.Proofs.Failure

namespace SchemaAtlas

-- ==================================================== spacing

namespace Spacing

theorem isUsable_iff {x : Float32} : isUsable x = true ↔ x.isFinite = true ∧ ¬ x < 0 := by
  simp [isUsable]

theorem fault?_eq_none_iff {s : Spacing} :
    s.fault? = none ↔
      (s.rank.isFinite = true ∧ ¬ s.rank < 0) ∧ s.node.isFinite = true ∧ ¬ s.node < 0 := by
  rw [← isUsable_iff, ← isUsable_iff]
  unfold fault?
  cases isUsable s.rank <;> cases isUsable s.node <;> simp

/-- Negative zero is a distance; infinities and what is no number are
not. -/
example : isUsable (-0) = true ∧ isUsable (1 / 0) = false ∧ isUsable (0 / 0) = false := by decide

end Spacing

-- ==================================================== colors

theorem Color.read_eq_ok_iff {readColor : ColorReader} {text : String} {color : Color} :
    Color.read readColor text = .ok color ↔ readColor text = .ok color :=
  Except.mapError_eq_ok_iff

namespace EdgeColors

/-- Both colors can be read. -/
def KnownTo (c : EdgeColors) (readColor : ColorReader) : Prop :=
  ∀ m, ∃ color, readColor (c.text m) = .ok color

variable {readColor : ColorReader}

theorem color_eq_ok_iff {c : EdgeColors} {m : ReferenceMechanism} {color : Color} :
    c.color readColor m = .ok color ↔ readColor (c.text m) = .ok color := by
  unfold EdgeColors.color
  rw [Except.mapError_eq_ok_iff, Color.read_eq_ok_iff]

theorem palette_eq_ok_iff {c : EdgeColors} {p : Palette} :
    c.palette readColor = .ok p ↔ ∀ m, readColor (c.text m) = .ok (p.color m) := by
  unfold palette
  rw [Except.bind_eq_ok_iff]
  constructor
  · rintro ⟨foreignKey, hforeignKey, h⟩
    obtain ⟨embedded, hembedded, h⟩ := Except.bind_eq_ok_iff.1 h
    cases h
    intro m
    cases m with
    | foreignKey => exact color_eq_ok_iff.1 hforeignKey
    | embedded => exact color_eq_ok_iff.1 hembedded
  · intro h
    refine ⟨p.foreignKey, color_eq_ok_iff.2 (h .foreignKey), ?_⟩
    exact Except.bind_eq_ok_iff.2 ⟨p.embedded, color_eq_ok_iff.2 (h .embedded), rfl⟩

end EdgeColors

namespace Config

variable {c : Config} {readColor : ColorReader}

-- ==================================================== the check

/-- The check reads both colors, as the palette does. -/
theorem validate_eq (c : Config) (readColor : ColorReader) :
    c.validate readColor =
      match c.spacing.fault? with
      | some f => .error (.spacing f)
      | none => (c.colors.palette readColor).map fun _ => () := by
  unfold validate EdgeColors.palette
  cases c.spacing.fault? with
  | some f => rfl
  | none =>
      cases c.colors.color readColor .foreignKey with
      | error f => rfl
      | ok foreignKey => cases c.colors.color readColor .embedded <;> rfl

/-- Settings that passed the check have usable spacing and a palette. -/
theorem exists_palette (h : c.validate readColor = .ok ()) :
    c.spacing.fault? = none ∧ ∃ p, c.colors.palette readColor = .ok p := by
  rw [validate_eq] at h
  cases hfault : c.spacing.fault? with
  | some f => rw [hfault] at h; cases h
  | none =>
      rw [hfault] at h
      obtain ⟨p, hp, -⟩ := Except.map_eq_ok_iff.1 h
      exact ⟨rfl, p, hp⟩

/-- The check passes settings whose distances are finite and not
negative and whose colors can be read, and no others. -/
theorem validate_eq_ok_iff :
    c.validate readColor = .ok () ↔
      ((c.spacing.rank.isFinite = true ∧ ¬ c.spacing.rank < 0) ∧
          c.spacing.node.isFinite = true ∧ ¬ c.spacing.node < 0) ∧
        c.colors.KnownTo readColor := by
  rw [← Spacing.fault?_eq_none_iff]
  constructor
  · intro h
    obtain ⟨hfault, p, hp⟩ := exists_palette h
    exact ⟨hfault, fun m => ⟨p.color m, EdgeColors.palette_eq_ok_iff.1 hp m⟩⟩
  · rintro ⟨hfault, hcolors⟩
    obtain ⟨foreignKey, hforeignKey⟩ := hcolors .foreignKey
    obtain ⟨embedded, hembedded⟩ := hcolors .embedded
    have hpalette : c.colors.palette readColor = .ok ⟨foreignKey, embedded⟩ := by
      refine EdgeColors.palette_eq_ok_iff.2 fun m => ?_
      cases m with
      | foreignKey => exact hforeignKey
      | embedded => exact hembedded
    rw [validate_eq, hfault, hpalette]
    rfl

/-- The default settings pass the check of a reader that knows their
colors. -/
theorem validate_default (h : ({} : EdgeColors).KnownTo readColor) :
    ({} : Config).validate readColor = .ok () :=
  validate_eq_ok_iff.2 ⟨Spacing.fault?_eq_none_iff.1 rfl, h⟩

-- ==================================================== the layout

/-- Under settings that passed the check every graph is laid out. -/
theorem layout_of_validate (h : c.validate readColor = .ok ()) :
    ∃ p, c.layoutOptions readColor = .ok ⟨c.spacing, p⟩ ∧
      ∀ g, Layout.of ⟨c.spacing, p⟩ g = .ok (Layout.arrange ⟨c.spacing, p⟩ g) ∧
        c.layout readColor g = .ok (Layout.arrange ⟨c.spacing, p⟩ g) := by
  obtain ⟨hfault, p, hp⟩ := exists_palette h
  have hoptions : c.layoutOptions readColor = .ok ⟨c.spacing, p⟩ := by
    unfold layoutOptions
    rw [hp]
    rfl
  refine ⟨p, hoptions, fun g => ?_⟩
  have hof : Layout.of ⟨c.spacing, p⟩ g = .ok (Layout.arrange ⟨c.spacing, p⟩ g) := by
    unfold Layout.of
    simp only [hfault]
  refine ⟨hof, ?_⟩
  unfold layout
  rw [hoptions]
  exact Except.mapError_eq_ok_iff.2 hof

-- ==================================================== the analysis

/-- An analysis needs settings that pass the check, and nothing else. -/
theorem analyze_eq_ok_iff {input : Text} {now : Moment} {a : Analysis} :
    c.analyze readColor input now = .ok a ↔
      c.validate readColor = .ok () ∧
        ∃ layout, c.layout readColor (extract input).graph = .ok layout ∧
        a = ⟨(extract input).graph, Issue.detect c.cascadeThreshold (extract input).graph,
          layout, (extract input).diagnostics, now⟩ := by
  unfold analyze
  rw [Except.bind_eq_ok_iff]
  constructor
  · rintro ⟨⟨⟩, hvalid, h⟩
    obtain ⟨layout, hlayout, ha⟩ := Except.bind_eq_ok_iff.1 h
    cases ha
    exact ⟨Except.mapError_eq_ok_iff.1 hvalid, layout, hlayout, rfl⟩
  · rintro ⟨hvalid, layout, hlayout, rfl⟩
    exact ⟨(), Except.mapError_eq_ok_iff.2 hvalid, Except.bind_eq_ok_iff.2 ⟨layout, hlayout, rfl⟩⟩

theorem exists_analysis (h : c.validate readColor = .ok ()) (input : Text) (now : Moment) :
    ∃ a, c.analyze readColor input now = .ok a := by
  obtain ⟨p, -, hlayout⟩ := layout_of_validate h
  exact ⟨_, analyze_eq_ok_iff.2 ⟨h, _, (hlayout _).2, rfl⟩⟩

/-- The failure of an analysis tells what the check found. -/
theorem analyze_eq_error_iff {input : Text} {now : Moment} {f : Failure} :
    c.analyze readColor input now = .error f ↔
      ∃ fault, c.validate readColor = .error fault ∧ fault.failure = f := by
  constructor
  · intro h
    cases hvalid : c.validate readColor with
    | ok u =>
        obtain ⟨a, ha⟩ := exists_analysis hvalid input now
        rw [ha] at h
        cases h
    | error fault =>
        unfold analyze at h
        rw [hvalid] at h
        cases h
        exact ⟨fault, rfl, rfl⟩
  · rintro ⟨fault, hfault, rfl⟩
    unfold analyze
    rw [hfault]
    rfl

-- ==================================================== the whole

/-- The check of settings `c` decides every analysis under them, colors
being read by `readColor`. -/
structure CheckDecides (c : Config) (readColor : ColorReader) : Prop where
  /-- A text is analyzed, at whatever moment, exactly if the settings pass
  the check. -/
  analyzes : ∀ input now,
    (∃ a, c.analyze readColor input now = .ok a) ↔ c.validate readColor = .ok ()
  /-- Settings pass the check if both distances are finite and not
  negative and both colors can be read. -/
  passes : c.validate readColor = .ok () ↔
    ((c.spacing.rank.isFinite = true ∧ ¬ c.spacing.rank < 0) ∧
        c.spacing.node.isFinite = true ∧ ¬ c.spacing.node < 0) ∧
      c.colors.KnownTo readColor
  /-- A failure is one of the settings and bears the message of the
  check. -/
  fails : ∀ input now f, c.analyze readColor input now = .error f ↔
    ∃ fault, c.validate readColor = .error fault ∧ f = ⟨.config, fault.message⟩
  /-- Past the check the colors are read again, and every graph is laid
  out. -/
  draws : c.validate readColor = .ok () → ∃ options, c.layoutOptions readColor = .ok options ∧
    ∀ g, (∃ l, Layout.of options g = .ok l) ∧ ∃ l, c.layout readColor g = .ok l
  /-- Whether an analysis fails does not depend on the text. -/
  alike : ∀ input now input' now',
    (∃ a, c.analyze readColor input now = .ok a) ↔ ∃ a, c.analyze readColor input' now' = .ok a

/-- For all settings, however colors are read. -/
theorem analyze_iff_validate (c : Config) (readColor : ColorReader) :
    CheckDecides c readColor := by
  have hsuccess : ∀ input now,
      (∃ a, c.analyze readColor input now = .ok a) ↔ c.validate readColor = .ok () := by
    intro input now
    constructor
    · rintro ⟨a, ha⟩
      exact (analyze_eq_ok_iff.1 ha).1
    · exact fun h => exists_analysis h input now
  refine ⟨hsuccess, validate_eq_ok_iff, ?fails, ?draws, ?alike⟩
  case fails =>
    intro input now f
    rw [analyze_eq_error_iff]
    constructor
    · rintro ⟨fault, hfault, rfl⟩
      exact ⟨fault, hfault, rfl⟩
    · rintro ⟨fault, hfault, rfl⟩
      exact ⟨fault, hfault, rfl⟩
  case draws =>
    intro h
    obtain ⟨p, hoptions, hlayout⟩ := layout_of_validate h
    exact ⟨_, hoptions, fun g => ⟨⟨_, (hlayout g).1⟩, _, (hlayout g).2⟩⟩
  case alike =>
    intro input now input' now'
    rw [hsuccess, hsuccess]

end Config

end SchemaAtlas
