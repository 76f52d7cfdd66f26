/-
The catalog of an input as the merge of the catalogs of its units. A
unit scanned alone, as an input of its own, gives the findings that it
has in the whole input, in its own coordinates and without its name;
moved to the unit's place and written over what earlier units left,
they make up the catalog of the input. The move itself is
`SourceUnit.scan_eq_shift`; here are the name, which a unit alone does
not have, and the merge.

- `Finding.all_unit`: a unit's name is all that its text does not give.
- `SourceUnit.flatMap_scan_unmarked`: inputs that are one unit.
- `Catalog.ofUnits_split_text`: a unit as an input of its own.
- `Catalog.scan_eq_merge`: the catalog of an input.
-/
import SchemaAtlas.Proofs.Catalog.Basic
import SchemaAtlas.Proofs.Catalog.Offset
import SchemaAtlas.Proofs.Catalog.Shape
import SchemaAtlas.Proofs.SourceUnit
import SchemaAtlas.Proofs.Token.Trim

namespace SchemaAtlas

-- ==================================================== names of units

/-- The declaration in a unit of the given name. -/
def Declaration.named (unit : Option String) (d : Declaration) : Declaration :=
  { d with unit := unit }

/-- The declaration, found in a unit scanned alone, as the whole input
has it. -/
def Declaration.placedIn (u : SourceUnit) (d : Declaration) : Declaration :=
  (d.shift u.start).named u.name

namespace Finding

/-- The finding in a unit of the given name. -/
def named (unit : Option String) : Finding → Finding
  | declaration d => declaration (d.named unit)
  | registration r => registration r
  | warning w => warning w

variable (unit : Option String) (text : Text)

theorem ofDeclaration_unit (ts : List PlacedToken) :
    ofDeclaration (.alone unit text) ts =
      (ofDeclaration (.alone none text) ts).map (named unit) := by
  unfold ofDeclaration
  split
  · rfl
  · split <;> rfl

theorem ofModel_unit (before : List PlacedToken) (word : Span) (ts : List PlacedToken) :
    ofModel (.alone unit text) before word ts =
      (ofModel (.alone none text) before word ts).map (named unit) := by
  unfold ofModel
  split
  · rfl
  · split <;> rfl

/-- A unit's name is all that its text does not give. -/
theorem all_unit (before ts : List PlacedToken) :
    all (.alone unit text) before ts = (all (.alone none text) before ts).map (named unit) := by
  induction ts generalizing before with
  | nil => rfl
  | cons t ts ih =>
      have hat : at? (.alone unit text) before t ts =
          (at? (.alone none text) before t ts).map (named unit) := by
        unfold at?
        split
        · split
          · exact ofDeclaration_unit unit text ts
          · rfl
        · exact ofModel_unit unit text before t.span ts
        · rfl
      rw [all, all, hat, ih]
      cases at? (.alone none text) before t ts <;> rfl

end Finding

namespace UnitScan

/-- The scan of a text without a name gives that of a named unit. -/
theorem of_unit (unit : Option String) (text : Text) :
    of unit text =
      { of none text with declarations := (of none text).declarations.map (·.named unit) } := by
  have hfindings : ∀ ts, Finding.all (.alone unit text) [] ts =
      (Finding.all (.alone none text) [] ts).map (Finding.named unit) :=
    Finding.all_unit unit text []
  unfold of SourceUnit.scan
  simp only [hfindings, List.filterMap_map, List.map_filterMap]
  -- each kind of finding is picked out before and after naming alike
  congr 1
  · congr 1
    funext f
    cases f <;> rfl
  · congr 1
    funext f
    cases f <;> rfl
  · congr 2
    funext f
    cases f <;> rfl

/-- Blank text holds nothing. -/
theorem of_isAllBlank {text : Text} (h : text.isAllBlank = true) :
    of none text = ⟨[], [], []⟩ := by
  obtain ⟨hsignificant, hwarnings⟩ := tokensFrom_of_isAllBlank h true 0
  have htokens : significant (tokenize text) = [] := hsignificant
  have hlexer : lexWarnings (tokenize text) = [] := hwarnings
  simp only [of, SourceUnit.scan, SourceUnit.alone, htokens, hlexer]
  rfl

end UnitScan

/-- A text without a name is scanned as a unit, or nothing is found in
it. -/
theorem SourceUnit.scan_unnamed (text : Text) :
    SourceUnit.isKept ⟨none, text, 0⟩ = true
        ∧ (⟨none, text, 0⟩ : SourceUnit).scan = UnitScan.of none text
      ∨ SourceUnit.isKept ⟨none, text, 0⟩ = false ∧ UnitScan.of none text = ⟨[], [], []⟩ := by
  by_cases hblank : text.isAllBlank = true
  · refine Or.inr ⟨?_, UnitScan.of_isAllBlank hblank⟩
    simp [isKept, hblank]
  · refine Or.inl ⟨?_, rfl⟩
    simp [isKept, hblank]

/-- What is found in a text without marker lines is found in it as one
unit. -/
theorem SourceUnit.flatMap_scan_unmarked {α : Type} {input : Text} {part : UnitScan → List α}
    (h : ∀ l ∈ input.lines, markerName? l = none) (hpart : part ⟨[], [], []⟩ = []) :
    (split input).flatMap (fun u => part u.scan) = part (UnitScan.of none input) := by
  rw [split_unmarked h, List.filter_cons]
  rcases scan_unnamed input with ⟨hkept, hscan⟩ | ⟨hkept, hscan⟩
  · rw [hkept, ← hscan]
    exact List.flatMap_singleton _ _
  · rw [hkept, hscan, hpart]
    rfl

namespace Catalog

/-- A unit as an input of its own. -/
theorem ofUnits_split_text {input : Text} {u : SourceUnit} (h : u ∈ SourceUnit.split input) :
    ofUnits (SourceUnit.split u.text) = empty.add (UnitScan.of none u.text) := by
  rw [SourceUnit.split_text h, List.filter_cons]
  rcases SourceUnit.scan_unnamed u.text with ⟨hkept, hscan⟩ | ⟨hkept, hscan⟩
  · rw [hkept, ← hscan]
    rfl
  · rw [hkept, hscan]
    rfl

-- ==================================================== additions

section

variable {input : Text} {u : SourceUnit} (h : u ∈ SourceUnit.split input) (c : Catalog)
include h

theorem declarations_add_scan :
    (c.add u.scan).declarations =
      c.declarations.merge ((scan u.text).declarations.adjust fun _ d => d.placedIn u) := by
  have halone : (scan u.text).declarations =
      (UnitScan.of none u.text).declarations.foldl (fun m d => m.insert d.name d) .empty := by
    show (ofUnits (SourceUnit.split u.text)).declarations = _
    rw [ofUnits_split_text h, declarations_add]
    rfl
  have hplaced : u.scan.declarations =
      (UnitScan.of none u.text).declarations.map (·.placedIn u) := by
    rw [SourceUnit.declarations_scan, UnitScan.of_unit, List.map_map]
    rfl
  rw [declarations_add, hplaced, List.foldl_map, halone]
  exact OrderedMap.foldl_insert_eq_merge Declaration.name (·.placedIn u) _ _

theorem registrations_add_scan :
    (c.add u.scan).registrations =
      c.registrations.merge ((scan u.text).registrations.adjust fun _ r => r.shift u.start) := by
  have halone : (scan u.text).registrations =
      (UnitScan.of none u.text).registrations.foldl (fun m r => m.insert r.schemaName r)
        .empty := by
    show (ofUnits (SourceUnit.split u.text)).registrations = _
    rw [ofUnits_split_text h, registrations_add]
    rfl
  have hplaced : u.scan.registrations =
      (UnitScan.of none u.text).registrations.map (·.shift u.start) := by
    rw [SourceUnit.registrations_scan, UnitScan.of_unit]
  rw [registrations_add, hplaced, List.foldl_map, halone]
  exact OrderedMap.foldl_insert_eq_merge Registration.schemaName (·.shift u.start) _ _

end

end Catalog

-- ==================================================== diagnostics

/-- The code of something that a unit shows by itself: a literal, a
comment or a body left open, or a malformed registration. -/
def DiagnosticCode.isOfUnit : DiagnosticCode → Bool
  | openString | openComment | openBody | malformedRegistration => true
  | unknownSchema | redeclaration | sharedDisplayName => false

/-- The diagnostic is about something that a unit shows by itself. -/
def Diagnostic.isOfUnit (d : Diagnostic) : Bool :=
  d.code.any DiagnosticCode.isOfUnit

theorem Finding.isOfUnit_of_at? {u : SourceUnit} {before ts : List PlacedToken}
    {t : PlacedToken} {w : Warning} (h : at? u before t ts = some (.warning w)) :
    w.code.isOfUnit = true := by
  unfold at? at h
  split at h
  · split at h
    · unfold ofDeclaration at h
      split at h
      · cases h
      · split at h
        · cases h
          rfl
        · cases h
    · cases h
  · unfold ofModel at h
    split at h
    · cases h
    · split at h
      · cases h
      · cases h
        rfl
  · cases h

/-- All that a scan of a unit warns of it shows by itself. -/
theorem UnitScan.isOfUnit_of_mem {unit : Option String} {text : Text} {w : Warning}
    (h : w ∈ (UnitScan.of unit text).warnings) : w.code.isOfUnit = true := by
  rw [warnings_of] at h
  rcases List.mem_append.1 h with h | h
  · obtain ⟨t, -, ht⟩ := List.mem_filterMap.1 h
    unfold PlacedToken.warning? at ht
    split at ht <;> cases ht <;> rfl
  · obtain ⟨f, hf, heq⟩ := List.mem_filterMap.1 h
    cases f with
    | declaration d => cases heq
    | registration r => cases heq
    | warning w' =>
        cases heq
        obtain ⟨us, t, vs, -, hat⟩ := Finding.exists_of_mem_all hf
        exact Finding.isOfUnit_of_at? hat

theorem SourceUnit.isOfUnit_of_mem_scan {u : SourceUnit} {w : Warning}
    (h : w ∈ u.scan.warnings) : w.code.isOfUnit = true := by
  rw [warnings_scan] at h
  obtain ⟨w', hw', rfl⟩ := List.mem_map.1 h
  rw [Warning.code_shift]
  exact UnitScan.isOfUnit_of_mem hw'

namespace Catalog

/-- The warnings of a catalog in words. -/
def diagnostics (c : Catalog) : List Diagnostic :=
  c.warnings.map Warning.diagnostic

/-- The warnings of a catalog that its units show by themselves. -/
def ofUnitWarnings (c : Catalog) : List Warning :=
  c.warnings.filter fun w => w.code.isOfUnit

theorem filter_diagnostics (c : Catalog) :
    c.diagnostics.filter Diagnostic.isOfUnit = c.ofUnitWarnings.map Warning.diagnostic := by
  unfold diagnostics ofUnitWarnings
  rw [List.filter_map]
  congr 1
  apply List.filter_congr
  intro w _
  show (w.diagnostic.code).any _ = _
  rw [Warning.code_diagnostic]
  rfl

theorem ofUnitWarnings_declare (c : Catalog) (d : Declaration) :
    (c.declare d).ofUnitWarnings = c.ofUnitWarnings := by
  unfold declare
  split
  · show (c.warnings ++ [Warning.redeclared ..]).filter _ = _
    rw [List.filter_append]
    exact List.append_nil _
  · rfl

/-- Of the warnings in a catalog, those that units show by themselves
are added by the units alone. -/
theorem ofUnitWarnings_add (c : Catalog) (s : UnitScan)
    (hs : ∀ w ∈ s.warnings, w.code.isOfUnit = true) :
    (c.add s).ofUnitWarnings = c.ofUnitWarnings ++ s.warnings := by
  let warned : Catalog := { c with warnings := c.warnings ++ s.warnings }
  have hdeclared : (s.declarations.foldl declare warned).ofUnitWarnings = warned.ofUnitWarnings :=
    List.foldlRecOn (motive := fun c' => c'.ofUnitWarnings = warned.ofUnitWarnings)
      s.declarations declare rfl fun c' h d _ => (ofUnitWarnings_declare c' d).trans h
  have hregistered : (c.add s).ofUnitWarnings =
      (s.declarations.foldl declare warned).ofUnitWarnings := by
    rw [add_eq]
    show List.filter _ _ = List.filter _ _
    congr 1
    exact warnings_foldl_register _ _
  rw [hregistered, hdeclared]
  show (c.warnings ++ s.warnings).filter _ = _
  rw [List.filter_append, List.filter_eq_self.2 hs]
  rfl

/-- Each warning is about something that a unit shows by itself, or
about a redeclaration. -/
def WarnsOfUnits (c : Catalog) : Prop :=
  ∀ w ∈ c.warnings, w.code.isOfUnit = true ∨ w.code = .redeclaration

theorem WarnsOfUnits.declare {c : Catalog} (h : c.WarnsOfUnits) (d : Declaration) :
    (c.declare d).WarnsOfUnits := by
  unfold Catalog.declare
  split
  · apply List.forall_mem_append.2 ⟨h, ?_⟩
    intro w hw
    rw [List.mem_singleton.1 hw]
    exact Or.inr rfl
  · exact h

theorem WarnsOfUnits.add_scan {c : Catalog} (h : c.WarnsOfUnits) (u : SourceUnit) :
    (c.add u.scan).WarnsOfUnits := by
  let warned : Catalog := { c with warnings := c.warnings ++ u.scan.warnings }
  have hwarned : warned.WarnsOfUnits :=
    List.forall_mem_append.2 ⟨h, fun w hw => Or.inl (SourceUnit.isOfUnit_of_mem_scan hw)⟩
  have hdeclared : (u.scan.declarations.foldl Catalog.declare warned).WarnsOfUnits :=
    List.foldlRecOn (motive := WarnsOfUnits) u.scan.declarations Catalog.declare hwarned
      fun _ hc d _ => hc.declare d
  intro w hw
  apply hdeclared w
  rw [add_eq] at hw
  rwa [← warnings_foldl_register _ u.scan.registrations]

/-- Before the registrations are checked there are no other warnings. -/
theorem warnsOfUnits_ofUnits (us : List SourceUnit) : (ofUnits us).WarnsOfUnits :=
  List.foldlRecOn (motive := WarnsOfUnits) us _ (List.forall_mem_nil _)
    fun _ hc u _ => hc.add_scan u

theorem code_of_mem_unknownSchemas {c : Catalog} {w : Warning} (h : w ∈ c.unknownSchemas) :
    w.code = .unknownSchema := by
  obtain ⟨r, -, hr⟩ := List.mem_filterMap.1 h
  obtain ⟨-, hw⟩ := Option.ite_none_left_eq_some.1 hr
  rw [← Option.some.inj hw]
  rfl

/-- Registrations of unknown schemas are no unit's own matter. -/
theorem ofUnitWarnings_scan (input : Text) :
    (scan input).ofUnitWarnings = (ofUnits (SourceUnit.split input)).ofUnitWarnings := by
  let c := ofUnits (SourceUnit.split input)
  have hunknown : c.unknownSchemas.filter (fun w => w.code.isOfUnit) = [] := by
    apply List.filter_eq_nil_iff.2
    intro w hw
    rw [code_of_mem_unknownSchemas hw]
    exact Bool.false_ne_true
  show (c.warnings ++ c.unknownSchemas).filter _ = _
  rw [List.filter_append, hunknown, List.append_nil]
  rfl

theorem ofUnitWarnings_add_scan {input : Text} {u : SourceUnit} (h : u ∈ SourceUnit.split input)
    (c : Catalog) :
    (c.add u.scan).ofUnitWarnings =
      c.ofUnitWarnings ++ (scan u.text).ofUnitWarnings.map (·.shift u.start) := by
  have halone : (scan u.text).ofUnitWarnings = (UnitScan.of none u.text).warnings := by
    rw [ofUnitWarnings_scan, ofUnits_split_text h,
      ofUnitWarnings_add _ _ fun w hw => UnitScan.isOfUnit_of_mem hw]
    rfl
  have hplaced : u.scan.warnings = (UnitScan.of none u.text).warnings.map (·.shift u.start) := by
    rw [SourceUnit.warnings_scan, UnitScan.of_unit]
  rw [ofUnitWarnings_add _ _ fun w hw => SourceUnit.isOfUnit_of_mem_scan hw, hplaced, halone]

-- ==================================================== inputs

section

variable {σ τ α : Type} {f : σ → α → σ} {g : τ → α → τ}

/-- What every element of a list does to a part of the state is what the
list does to it. -/
theorem foldl_hom_of_mem (part : σ → τ) {l : List α}
    (h : ∀ x ∈ l, ∀ s, part (f s x) = g (part s) x) (s : σ) :
    part (l.foldl f s) = l.foldl g (part s) := by
  induction l generalizing s with
  | nil => rfl
  | cons x l ih =>
      rw [List.foldl_cons, List.foldl_cons, ih (fun y hy => h y (List.mem_cons_of_mem x hy)),
        h x List.mem_cons_self]

end

/-- The catalog of an input is the merge of the catalogs of its units,
each moved to its unit's place: declarations and registrations of later
units are written over those of earlier ones, and what units show by
themselves is reported in their order. -/
theorem scan_eq_merge (input : Text) :
    (scan input).declarations =
        (SourceUnit.split input).foldl (fun m u =>
          m.merge ((scan u.text).declarations.adjust fun _ d => d.placedIn u)) .empty
      ∧ (scan input).registrations =
        (SourceUnit.split input).foldl (fun m u =>
          m.merge ((scan u.text).registrations.adjust fun _ r => r.shift u.start)) .empty
      ∧ (scan input).diagnostics.filter Diagnostic.isOfUnit =
        (SourceUnit.split input).flatMap fun u =>
          ((scan u.text).diagnostics.filter Diagnostic.isOfUnit).map (·.shift u.start) := by
  refine ⟨?_, ?_, ?_⟩
  · exact foldl_hom_of_mem declarations (fun u hu c => declarations_add_scan hu c) empty
  · exact foldl_hom_of_mem registrations (fun u hu c => registrations_add_scan hu c) empty
  · have hwarnings : (ofUnits (SourceUnit.split input)).ofUnitWarnings =
        (SourceUnit.split input).foldl (fun ws u =>
          ws ++ (scan u.text).ofUnitWarnings.map (·.shift u.start)) [] :=
      foldl_hom_of_mem ofUnitWarnings (fun u hu c => ofUnitWarnings_add_scan hu c) empty
    rw [filter_diagnostics, ofUnitWarnings_scan, hwarnings, ← List.flatMap_eq_foldl,
      List.map_flatMap]
    congr 1
    funext u
    rw [filter_diagnostics, List.map_map, List.map_map]
    apply List.map_congr_left
    intro w _
    exact Warning.diagnostic_shift u.start w

end Catalog

end SchemaAtlas
