/-
Diagnostics by their codes. What a unit shows by itself is reported unit
by unit. A redeclaration is reported while declarations are written into
the catalog, a shared display name while they are written into the
graph; both are runs of writes that tell of what they replace. Unknown
schemas are looked up among the registrations that are left once every
unit is in. So each code accounts for one kind of event, and events can
be counted without running anything.

- `pick_ofUnit`, `pick_redeclaration`, `pick_unknownSchema`,
  `pick_sharedDisplayName`: the warnings under each code.
- `Catalog.mem_values_registrations_iff`: the registrations left.
- `diagnostics_account`: the events that diagnostics account for.
-/
import SchemaAtlas.Proofs.Extraction.Sequence
import SchemaAtlas.Proofs.Graph.Adjacency
import SchemaAtlas.Proofs.OrderedMap.Previous

namespace SchemaAtlas

-- ==================================================== vocabulary

/-- The spans under the primary labels. -/
def Diagnostic.primaries (g : Diagnostic) : List Span :=
  (g.labels.filter fun l => l.isPrimary).map Label.span

/-- The spans under the secondary labels. -/
def Diagnostic.secondaries (g : Diagnostic) : List Span :=
  (g.labels.filter fun l => !l.isPrimary).map Label.span

/-- The diagnostics under a code, in their order. -/
def Extraction.under (e : Extraction) (code : DiagnosticCode) : List Diagnostic :=
  e.diagnostics.filter fun g => g.code = some code

/-- The warnings under a code, in their order. -/
def Warning.pick (code : DiagnosticCode) (ws : List Warning) : List Warning :=
  ws.filter fun w => w.code = code

namespace Catalog

variable (input : Text)

/-- The declarations whose identifier an earlier one has bound. -/
def repeated : List Declaration :=
  (found input).filter fun d => ∃ e ∈ found input, e.name = d.name ∧ e.span.start < d.span.start

/-- The registrations that are the last ones for their schema, which
nothing declares. -/
def unresolved : List Registration :=
  (registered input).filter fun r =>
    (∀ s ∈ registered input, s.schemaName = r.schemaName → s.span.start ≤ r.span.start)
      ∧ r.schemaName ∉ (found input).map Declaration.name

/-- The identifiers that are declared, each once. -/
def declaredNames : List String :=
  ((found input).map Declaration.name).eraseDups

/-- The nearest declaration in front that binds the same identifier. -/
def previousDeclaration? (d : Declaration) : Option Declaration :=
  OrderedMap.previous? Declaration.name (·.span.start) (found input) d

/-- The declarations that the catalog keeps, in its order. -/
def kept : List Declaration :=
  (scan input).declarations.values

/-- The kept declarations whose display name one in front of them has. -/
def replacing : List Declaration :=
  (kept input).filter fun d => ∃ e ∈ kept input,
    Assembly.idOf (scan input) e = Assembly.idOf (scan input) d
      ∧ firstStart input e.name < firstStart input d.name

/-- The nearest kept declaration in front that has the same display
name. -/
def previousOfId? (d : Declaration) : Option Declaration :=
  OrderedMap.previous? (Assembly.idOf (scan input)) (firstStart input ·.name) (kept input) d

variable {input} {d : Declaration}

theorem isSome_previousDeclaration?_iff :
    (previousDeclaration? input d).isSome ↔
      ∃ e ∈ found input, e.name = d.name ∧ e.span.start < d.span.start :=
  OrderedMap.isSome_previous?_iff Declaration.name (·.span.start)

theorem isSome_previousOfId?_iff :
    (previousOfId? input d).isSome ↔ ∃ e ∈ kept input,
      Assembly.idOf (scan input) e = Assembly.idOf (scan input) d
        ∧ firstStart input e.name < firstStart input d.name :=
  OrderedMap.isSome_previous?_iff (Assembly.idOf (scan input)) (firstStart input ·.name)

theorem repeated_eq (input : Text) :
    repeated input = (found input).filter fun d => (previousDeclaration? input d).isSome := by
  apply List.filter_congr
  intro d _
  rw [Bool.eq_iff_iff, decide_eq_true_iff, isSome_previousDeclaration?_iff]

theorem replacing_eq (input : Text) :
    replacing input = (kept input).filter fun d => (previousOfId? input d).isSome := by
  apply List.filter_congr
  intro d _
  rw [Bool.eq_iff_iff, decide_eq_true_iff, isSome_previousOfId?_iff]

end Catalog

-- ==================================================== codes

namespace Warning

variable {code other : DiagnosticCode} {ws vs : List Warning}

theorem pick_append : pick code (ws ++ vs) = pick code ws ++ pick code vs :=
  List.filter_append ws vs

theorem pick_eq_self (h : ∀ w ∈ ws, w.code = code) : pick code ws = ws :=
  List.filter_eq_self.2 fun w hw => decide_eq_true (h w hw)

theorem pick_eq_nil (h : ∀ w ∈ ws, w.code ≠ code) : pick code ws = [] :=
  List.filter_eq_nil_iff.2 fun w hw hcode => h w hw (of_decide_eq_true hcode)

/-- Of what is made for some elements, a part that depends on them is
made for the same ones. -/
theorem map_filterMap_option {α β γ δ : Type} {p : α → Option β} {f : α → β → γ} {g : γ → δ}
    (h : α → Option β → δ) (hg : ∀ x y, g (f x y) = h x (some y)) (xs : List α) :
    (xs.filterMap fun x => (p x).map (f x)).map g =
      (xs.filter fun x => (p x).isSome).map fun x => h x (p x) := by
  rw [List.map_filterMap]
  apply filterMap_eq_map_filter
  intro x _
  cases hx : p x with
  | none => rfl
  | some y => exact congrArg some (hg x y)

theorem primaries_diagnostic (w : Warning) : w.diagnostic.primaries = [w.primary] := by
  cases w <;> rfl

end Warning

open Warning Catalog

theorem Extraction.under_eq (e : Extraction) (code : DiagnosticCode) :
    e.under code = (pick code e.warnings).map Warning.diagnostic := by
  unfold under diagnostics pick
  rw [List.filter_map]
  congr 1
  apply List.filter_congr
  intro w _
  rw [Function.comp_apply, code_diagnostic, decide_eq_decide]
  exact Option.some_inj

-- ==================================================== redeclarations

namespace Catalog

/-- The declarations of a catalog and its reports of redeclarations. -/
def tracked (c : Catalog) : OrderedMap String Declaration × List Warning :=
  (c.declarations, pick .redeclaration c.warnings)

/-- Writes a declaration, and reports one that it replaces. -/
def trackDeclaration (s : OrderedMap String Declaration × List Warning) (d : Declaration) :
    OrderedMap String Declaration × List Warning :=
  OrderedMap.track Declaration.name id (fun d e => .redeclared d.name d.span e.span) s d

theorem tracked_declare (c : Catalog) (d : Declaration) :
    (c.declare d).tracked = trackDeclaration c.tracked d := by
  unfold declare tracked trackDeclaration OrderedMap.track
  cases c.declarations.get? d.name with
  | none =>
      rw [Option.map_none, Option.toList_none, List.append_nil]
      rfl
  | some e =>
      show (_, pick _ (c.warnings ++ [.redeclared d.name d.span e.span])) = _
      rw [pick_append]
      rfl

theorem tracked_add (c : Catalog) (u : SourceUnit) :
    (c.add u.scan).tracked = u.scan.declarations.foldl trackDeclaration c.tracked := by
  let warned : Catalog := { c with warnings := c.warnings ++ u.scan.warnings }
  have hunit : pick .redeclaration u.scan.warnings = [] := by
    apply pick_eq_nil
    intro w hw hcode
    have hlocal := SourceUnit.isOfUnit_of_mem_scan hw
    rw [hcode] at hlocal
    cases hlocal
  have hwarned : warned.tracked = c.tracked := by
    show (c.declarations, pick .redeclaration (c.warnings ++ u.scan.warnings)) = _
    rw [pick_append, hunit, List.append_nil]
    rfl
  have hregistered :
      (c.add u.scan).tracked = (u.scan.declarations.foldl declare warned).tracked := by
    unfold tracked
    rw [add_eq, declarations_foldl_register, warnings_foldl_register]
  rw [hregistered, ← hwarned]
  exact (List.foldl_hom tracked fun c d => (tracked_declare c d).symm).symm

theorem tracked_ofUnits (input : Text) :
    (ofUnits (SourceUnit.split input)).tracked =
      (found input).foldl trackDeclaration (.empty, []) := by
  rw [found, List.foldl_flatMap]
  exact (List.foldl_hom tracked fun c u => (tracked_add c u).symm).symm

end Catalog

-- ==================================================== shared display names

namespace Assembly

theorem schemas_warnings_add (c : Catalog) (a : Assembly) (d : Declaration) :
    ((a.add c d).schemas, (a.add c d).warnings) =
      OrderedMap.track (idOf c) (fun d => (nodeOf c d, d.span))
        (fun d e => .sharedDisplayName e.1.declaredName d.name (idOf c d) d.span e.2)
        (a.schemas, a.warnings) d := by
  unfold OrderedMap.track
  rw [schemas_add, warnings_add]
  cases a.schemas.get? (idOf c d) with
  | none => rw [Option.map_none, Option.toList_none, List.append_nil]
  | some e => rfl

theorem schemas_warnings_of (c : Catalog) :
    ((of c).schemas, (of c).warnings) =
      c.declarations.values.foldl (OrderedMap.track (idOf c) (fun d => (nodeOf c d, d.span))
        fun d e => .sharedDisplayName e.1.declaredName d.name (idOf c d) d.span e.2) (.empty, []) :=
  (List.foldl_hom (fun a : Assembly => (a.schemas, a.warnings))
    fun a d => (schemas_warnings_add c a d).symm).symm

end Assembly

-- ==================================================== warnings by code

section

variable (input : Text)

theorem pick_extract (code : DiagnosticCode) :
    pick code (extract input).warnings =
      pick code (ofUnits (SourceUnit.split input)).warnings
        ++ pick code (ofUnits (SourceUnit.split input)).unknownSchemas
        ++ pick code (Assembly.of (scan input)).warnings := by
  rw [← pick_append, ← pick_append]
  rfl

theorem pick_unknownSchemas_of_ne {c : Catalog} {code : DiagnosticCode}
    (h : code ≠ .unknownSchema) : pick code c.unknownSchemas = [] := by
  apply pick_eq_nil
  intro w hw
  rw [code_of_mem_unknownSchemas hw]
  exact h.symm

theorem pick_assembly_of_ne {c : Catalog} {code : DiagnosticCode}
    (h : code ≠ .sharedDisplayName) : pick code (Assembly.of c).warnings = [] := by
  apply pick_eq_nil
  intro w hw
  rw [Assembly.code_of_mem_warnings c hw]
  exact h.symm

theorem pick_ofUnits_of_ne {us : List SourceUnit} {code : DiagnosticCode}
    (h : code.isOfUnit = false) (hne : code ≠ .redeclaration) :
    pick code (ofUnits us).warnings = [] := by
  apply pick_eq_nil
  intro w hw hcode
  rcases warnsOfUnits_ofUnits us w hw with hlocal | hlocal
  · rw [hcode, h] at hlocal
    cases hlocal
  · exact hne (hcode.symm.trans hlocal)

/-- What units show by themselves is reported in their order. -/
theorem pick_ofUnit {code : DiagnosticCode} (h : code.isOfUnit = true) :
    pick code (extract input).warnings =
      pick code ((SourceUnit.split input).flatMap fun u => u.scan.warnings) := by
  have hlocal : ∀ c : Catalog, pick code c.warnings = pick code c.ofUnitWarnings := by
    intro c
    unfold pick ofUnitWarnings
    rw [List.filter_filter]
    apply List.filter_congr
    intro w _
    by_cases hcode : w.code = code
    · rw [hcode, h, Bool.and_true]
    · rw [decide_eq_false hcode, Bool.false_and]
  have hunits : (ofUnits (SourceUnit.split input)).ofUnitWarnings =
      (SourceUnit.split input).flatMap fun u => u.scan.warnings := by
    rw [List.flatMap_eq_foldl]
    refine (List.foldl_hom ofUnitWarnings fun c u => ?_).symm
    exact (ofUnitWarnings_add c u.scan fun w hw => SourceUnit.isOfUnit_of_mem_scan hw).symm
  rw [pick_extract, pick_unknownSchemas_of_ne, pick_assembly_of_ne, List.append_nil,
    List.append_nil, hlocal, hunits]
  · rintro rfl
    cases h
  · rintro rfl
    cases h

/-- A declaration that repeats an identifier is reported with the
nearest one in front that binds it. -/
theorem pick_redeclaration :
    pick .redeclaration (extract input).warnings =
      (found input).filterMap fun d =>
        (previousDeclaration? input d).map fun e => .redeclared d.name d.span e.span := by
  rw [pick_extract, pick_unknownSchemas_of_ne DiagnosticCode.noConfusion,
    pick_assembly_of_ne DiagnosticCode.noConfusion, List.append_nil, List.append_nil]
  have hfold := tracked_ofUnits input
  unfold trackDeclaration at hfold
  rw [OrderedMap.foldl_track Declaration.name id (·.span.start) _ (pairwise_starts input)] at hfold
  exact congrArg Prod.snd hfold

/-- A registration that is left and for which nothing is declared is
reported. -/
theorem pick_unknownSchema :
    pick .unknownSchema (extract input).warnings =
      ((scan input).registrations.values.filter fun r =>
        r.schemaName ∉ (found input).map Declaration.name).map fun r =>
          .unknownSchema r.displayName r.schemaName r.span := by
  rw [pick_extract, pick_ofUnits_of_ne rfl DiagnosticCode.noConfusion,
    pick_assembly_of_ne DiagnosticCode.noConfusion, List.append_nil, List.nil_append,
    pick_eq_self fun w hw => code_of_mem_unknownSchemas hw]
  apply filterMap_eq_map_filter
  intro r _
  by_cases hdeclared : r.schemaName ∈ (found input).map Declaration.name
  · rw [decide_eq_false (not_not_intro hdeclared)]
    exact if_pos (declares_iff.2 hdeclared)
  · rw [decide_eq_true hdeclared]
    exact if_neg (mt declares_iff.1 hdeclared)

/-- A kept declaration whose display name another one in front of it
has is reported with the nearest such one. -/
theorem pick_sharedDisplayName :
    pick .sharedDisplayName (extract input).warnings =
      (kept input).filterMap fun d =>
        (previousOfId? input d).map fun e => Assembly.collision (scan input) e d := by
  rw [pick_extract, pick_ofUnits_of_ne rfl DiagnosticCode.noConfusion,
    pick_unknownSchemas_of_ne DiagnosticCode.noConfusion, List.nil_append, List.nil_append,
    pick_eq_self fun w hw => Assembly.code_of_mem_warnings _ hw]
  have hfold := Assembly.schemas_warnings_of (scan input)
  rw [OrderedMap.foldl_track _ _ (firstStart input ·.name) _ (pairwise_values input)] at hfold
  exact congrArg Prod.snd hfold

end

-- ==================================================== registrations left

namespace Catalog

variable {input : Text}

/-- The registrations left are the last ones for their schemas. -/
theorem mem_values_registrations_iff {r : Registration} :
    r ∈ (scan input).registrations.values ↔ r ∈ registered input
      ∧ ∀ s ∈ registered input, s.schemaName = r.schemaName → s.span.start ≤ r.span.start := by
  rw [registrations_scan]
  exact OrderedMap.mem_values_foldl_insert_iff (pairwise_registered input)

/-- They stand in the order of the first ones. -/
theorem pairwise_values_registrations (input : Text) :
    (scan input).registrations.values.Pairwise fun r s =>
      OrderedMap.firstPos Registration.schemaName (·.span.start) r.schemaName (registered input)
        < OrderedMap.firstPos Registration.schemaName (·.span.start) s.schemaName
          (registered input) := by
  rw [registrations_scan]
  exact OrderedMap.pairwise_values_foldl_insert (pairwise_registered input)

theorem mem_unresolved_iff {r : Registration} :
    r ∈ unresolved input ↔ r ∈ (scan input).registrations.values
      ∧ r.schemaName ∉ (found input).map Declaration.name := by
  rw [unresolved, List.mem_filter, decide_eq_true_iff, mem_values_registrations_iff, and_assoc]

/-- Reported are the unresolved registrations, each once. -/
theorem perm_unresolved (input : Text) :
    ((scan input).registrations.values.filter fun r =>
      r.schemaName ∉ (found input).map Declaration.name).Perm (unresolved input) := by
  have hleft : ((scan input).registrations.values.filter fun r =>
      r.schemaName ∉ (found input).map Declaration.name).Nodup := by
    refine List.Pairwise.filter _ ((pairwise_values_registrations input).imp ?_)
    rintro r _ hlt rfl
    exact Nat.lt_irrefl _ hlt
  have hright : (unresolved input).Nodup := by
    refine List.Pairwise.filter _ ((pairwise_registered input).imp ?_)
    rintro r _ hlt rfl
    exact Nat.lt_irrefl _ hlt
  refine (List.perm_ext_iff_of_nodup hleft hright).2 fun r => ?_
  rw [mem_unresolved_iff, List.mem_filter, decide_eq_true_iff]

/-- No schema has two unresolved registrations. -/
theorem nodup_unresolved (input : Text) :
    ((unresolved input).map Registration.schemaName).Nodup := by
  refine List.pairwise_map.2 ?_
  refine List.Pairwise.imp_of_mem ?_ ((pairwise_registered input).filter _)
  intro r s hr hs hlt hname
  have hlast := (mem_values_registrations_iff.1 (mem_unresolved_iff.1 hr).1).2
  have hle := hlast s (mem_values_registrations_iff.1 (mem_unresolved_iff.1 hs).1).1 hname.symm
  omega

/-- A schema has one if it is registered and not declared. -/
theorem mem_names_unresolved_iff {name : String} :
    name ∈ (unresolved input).map Registration.schemaName ↔
      name ∈ (registered input).map Registration.schemaName
        ∧ name ∉ (found input).map Declaration.name := by
  constructor
  · intro h
    obtain ⟨r, hr, rfl⟩ := List.mem_map.1 h
    obtain ⟨hvalue, hundeclared⟩ := mem_unresolved_iff.1 hr
    exact ⟨List.mem_map_of_mem (mem_values_registrations_iff.1 hvalue).1, hundeclared⟩
  · rintro ⟨hregistered, hundeclared⟩
    obtain ⟨r, hr, rfl⟩ := List.mem_map.1 hregistered
    have hkey : r.schemaName ∈ (scan input).registrations.keys := by
      rw [registrations_scan]
      exact (OrderedMap.mem_keys_foldl_insert Registration.schemaName id).2
        (Or.inr (List.mem_map_of_mem hr))
    cases hget : (scan input).registrations.get? r.schemaName with
    | none => exact absurd hkey (OrderedMap.get?_eq_none_iff.1 hget)
    | some s =>
        have hvalue := OrderedMap.mem_values_of_get? hget
        rw [registrations_scan, OrderedMap.get?_eq_some_iff] at hget
        have hname : s.schemaName = r.schemaName := OrderedMap.key_of_mem_foldl_insert hget
        rw [← hname] at hundeclared ⊢
        exact List.mem_map_of_mem (mem_unresolved_iff.2 ⟨hvalue, hundeclared⟩)

/-- The catalog keeps one declaration for each identifier. -/
theorem length_kept (input : Text) : (kept input).length = (declaredNames input).length := by
  have hkeys : ((scan input).declarations.keys).Perm (declaredNames input) := by
    refine (List.perm_ext_iff_of_nodup (scan input).declarations.nodup_keys
      (nodup_eraseDups _)).2 fun name => ?_
    rw [List.mem_eraseDups, ← declares_iff, declares, OrderedMap.contains_iff]
    rfl
  have hlength := hkeys.length_eq
  rw [OrderedMap.keys, List.length_map] at hlength
  rw [kept, OrderedMap.values, List.length_map, hlength]

end Catalog

-- ==================================================== accounts

/-- Each kept declaration adds a schema or a report. -/
theorem length_sharedDisplayName (input : Text) :
    (pick .sharedDisplayName (extract input).warnings).length
      + (extract input).graph.schemas.length = (kept input).length := by
  have hpick : pick .sharedDisplayName (extract input).warnings =
      (Assembly.of (scan input)).warnings := by
    rw [pick_extract, pick_ofUnits_of_ne rfl DiagnosticCode.noConfusion,
      pick_unknownSchemas_of_ne DiagnosticCode.noConfusion, List.nil_append, List.nil_append,
      pick_eq_self fun w hw => Assembly.code_of_mem_warnings _ hw]
  have hschemas : (extract input).graph.schemas.length =
      (Assembly.of (scan input)).schemas.keys.length := by
    show (((Assembly.of (scan input)).schemas.entries.map Prod.snd).map Prod.fst).length = _
    rw [List.length_map, List.length_map, OrderedMap.keys, List.length_map]
  have hcount := OrderedMap.length_reports (Assembly.idOf (scan input))
    (fun d => (Assembly.nodeOf (scan input) d, d.span))
    (fun d e => Warning.sharedDisplayName e.1.declaredName d.name (Assembly.idOf (scan input) d)
      d.span e.2) (.empty, []) (scan input).declarations.values
  rw [← Assembly.schemas_warnings_of] at hcount
  rw [hpick, hschemas, hcount]
  exact Nat.zero_add _

/-- What diagnostics account for, in every input. All of them are
warnings. There is one of a redeclaration for each declaration that
repeats an identifier, in their order, labelled at that declaration; one
of an unknown schema for each identifier that is registered and that no
unit declares, labelled at its last registration; and as many of shared
display names as identifiers are declared and have no schema of their
own in the graph. -/
theorem diagnostics_account (input : Text) :
    (∀ g ∈ (extract input).diagnostics, g.severity = .warning)
      ∧ (((extract input).under .redeclaration).map Diagnostic.primaries =
        (repeated input).map fun d => [d.span])
      ∧ (((extract input).under .unknownSchema).map Diagnostic.primaries).Perm
        ((unresolved input).map fun r => [r.span])
      ∧ ((unresolved input).map Registration.schemaName).Nodup
      ∧ (∀ name, name ∈ (unresolved input).map Registration.schemaName ↔
        name ∈ (registered input).map Registration.schemaName
          ∧ name ∉ (found input).map Declaration.name)
      ∧ ((extract input).under .sharedDisplayName).length
        + (extract input).graph.schemas.length = (declaredNames input).length := by
  refine ⟨?severity, ?redeclared, ?unknown, nodup_unresolved input,
    fun _ => mem_names_unresolved_iff, ?shared⟩
  case severity =>
    intro g hg
    obtain ⟨w, -, rfl⟩ := List.mem_map.1 hg
    exact severity_diagnostic w
  case redeclared =>
    rw [Extraction.under_eq, pick_redeclaration, List.map_map, repeated_eq]
    refine map_filterMap_option (fun d _ => [d.span]) ?_ (found input)
    intro d e
    rfl
  case unknown =>
    rw [Extraction.under_eq, pick_unknownSchema, List.map_map, List.map_map]
    exact (perm_unresolved input).map _
  case shared =>
    rw [Extraction.under_eq, List.length_map, length_sharedDisplayName, length_kept]

end SchemaAtlas
