/-
Display-name collisions. The catalog keeps the last declaration of each
identifier in the place of the first; the assembly then goes through
what is kept, place by place, and a schema replaces the one before it
under the same id. So a schema comes from the last declaration of the
identifier that is first declared last. This is the last declaration of
all that resolve to the id only as long as no identifier is declared
again behind another one with which it collides.

- `Assembly.exists_source`, `Assembly.labels_inOrder_iff`: one catalog.
- `collisions_spec`: which declarations win, for every input.
- `not_latest_overtaking`: the one that comes last need not win.
-/
import SchemaAtlas.Proofs.Catalog.Merge
import SchemaAtlas.Proofs.Catalog.Order
import SchemaAtlas.Proofs.Extraction.Assembly

namespace SchemaAtlas

namespace Assembly

-- ==================================================== one catalog

/-- The labels of a collision stand in order: the schema that replaces
the other is declared behind it. -/
def LabelsInOrder (w : Warning) : Prop :=
  match w with
  | .sharedDisplayName _ _ _ declaration earlier => earlier.stop ≤ declaration.start
  | _ => True

/-- The warning about a schema of `d` that is replaced by one of `e`. -/
def collision (c : Catalog) (d e : Declaration) : Warning :=
  .sharedDisplayName d.name e.name (idOf c e) e.span d.span

section

variable (c : Catalog) (pos : Declaration → Nat) {ds : List Declaration}
  (hpos : ds.Pairwise fun d e => pos d < pos e)
include hpos

/-- The schema under an id is that of the last declaration with the id,
in the order of the catalog. -/
theorem exists_source {id : String} {entry : SchemaNode × Span}
    (h : (ds.foldl (add c) empty).schemas.get? id = some entry) :
    ∃ d ∈ ds, idOf c d = id ∧ entry = (nodeOf c d, d.span)
      ∧ ∀ e ∈ ds, idOf c e = id → pos e ≤ pos d := by
  rw [schemas_foldl_add] at h
  obtain ⟨d, hd, hid, hentry, hlast⟩ :=
    OrderedMap.exists_last_of_get? (idOf c) (fun d => (nodeOf c d, d.span)) pos hpos h
  exact ⟨d, hd, hid, hentry.symm, hlast⟩

omit hpos in
/-- One more declaration adds a warning if its id has a schema. -/
theorem warnings_add (a : Assembly) (e : Declaration) :
    (a.add c e).warnings = match a.schemas.get? (idOf c e) with
      | some (earlier, span) =>
          a.warnings ++ [.sharedDisplayName earlier.declaredName e.name (idOf c e) e.span span]
      | none => a.warnings := rfl

/-- Each collision is of two kept declarations, the later of which
replaces the earlier in the order of the catalog. -/
theorem exists_collision {w : Warning} (hw : w ∈ (ds.foldl (add c) empty).warnings) :
    ∃ d ∈ ds, ∃ e ∈ ds, idOf c d = idOf c e ∧ pos d < pos e ∧ w = collision c d e := by
  induction ds using List.reverseRecOn with
  | nil => cases hw
  | append_singleton ds e ih =>
      obtain ⟨hds, -, he⟩ := List.pairwise_append.1 hpos
      have hearlier : w ∈ (ds.foldl (add c) empty).warnings →
          ∃ d ∈ ds ++ [e], ∃ e' ∈ ds ++ [e],
            idOf c d = idOf c e' ∧ pos d < pos e' ∧ w = collision c d e' := by
        intro hw
        obtain ⟨d, hd, e', he', hspec⟩ := ih hds hw
        exact ⟨d, List.mem_append_left _ hd, e', List.mem_append_left _ he', hspec⟩
      rw [List.foldl_append, List.foldl_cons, List.foldl_nil, warnings_add] at hw
      split at hw
      · next node span hget =>
          rcases List.mem_append.1 hw with hw | hw
          · exact hearlier hw
          · obtain ⟨d, hd, hid, hentry, -⟩ := exists_source c pos hds hget
            cases hentry
            refine ⟨d, List.mem_append_left _ hd, e, by simp, hid, ?_, List.mem_singleton.1 hw⟩
            exact he d hd e (List.mem_singleton.2 rfl)
      · exact hearlier hw

/-- What stands behind the last declaration of an id stands behind all
of them, once they are in order. -/
theorem endsBefore_of_last {d e f : Declaration}
    (hordered : ds.Pairwise fun d e => idOf c d = idOf c e → d.EndsBefore e) (hd : d ∈ ds)
    (hf : f ∈ ds) (hid : idOf c d = idOf c f) (hlast : pos d ≤ pos f) (hfe : f.EndsBefore e) :
    d.EndsBefore e := by
  by_cases hdf : d = f
  · rw [hdf]
    exact hfe
  · have hne : pos d ≠ pos f := fun h => hdf (OrderedMap.eq_of_pos_eq pos hpos hd hf h)
    have hspans := OrderedMap.rel_of_pos_lt pos hpos hordered hd hf (by omega) hid
    have hspan := f.span.start_le_stop
    unfold Declaration.EndsBefore at hspans hfe ⊢
    omega

/-- All labels stand in order exactly when all declarations of one id
do. -/
theorem labels_inOrder_iff :
    (∀ w ∈ (ds.foldl (add c) empty).warnings, LabelsInOrder w) ↔
      ds.Pairwise fun d e => idOf c d = idOf c e → d.EndsBefore e := by
  induction ds using List.reverseRecOn with
  | nil => exact iff_of_true (List.forall_mem_nil _) .nil
  | append_singleton ds e ih =>
      obtain ⟨hds, -, he⟩ := List.pairwise_append.1 hpos
      have hsplit : (ds ++ [e]).Pairwise (fun d e => idOf c d = idOf c e → d.EndsBefore e) ↔
          (∀ w ∈ (ds.foldl (add c) empty).warnings, LabelsInOrder w)
            ∧ ∀ d ∈ ds, idOf c d = idOf c e → d.EndsBefore e := by
        rw [ih hds, List.pairwise_append]
        simp
      rw [hsplit, List.foldl_append, List.foldl_cons, List.foldl_nil, warnings_add]
      split
      · next node span hget =>
          obtain ⟨f, hf, hid, hentry, hlast⟩ := exists_source c pos hds hget
          cases hentry
          rw [List.forall_mem_append, List.forall_mem_singleton]
          apply and_congr_right
          intro hordered
          constructor
          · -- the new schema replaces that of `f`, which is the last one with the id
            intro hfe d hd hde
            exact endsBefore_of_last c pos hds ((ih hds).1 hordered) hd hf (hde.trans hid.symm)
              (hlast d hd hde) hfe
          · intro h
            exact h f hf hid
      · next hget =>
          refine (and_iff_left ?_).symm
          intro d hd hde
          have hkey : idOf c e ∈ (ds.foldl (add c) empty).schemas.keys := by
            rw [schemas_foldl_add, ← hde]
            exact (OrderedMap.mem_keys_foldl_insert (idOf c) fun d => (nodeOf c d, d.span)).2
              (Or.inr (List.mem_map_of_mem hd))
          exact absurd hkey (OrderedMap.get?_eq_none_iff.1 hget)

end

end Assembly

namespace Catalog

/-- None of the warnings is about a collision. -/
def Unshared (c : Catalog) : Prop :=
  ∀ w ∈ c.warnings, w.code ≠ .sharedDisplayName

/-- A scan does not tell of collisions. -/
theorem unshared_scan (input : Text) : (scan input).Unshared := by
  refine List.forall_mem_append.2 ⟨?_, ?_⟩
  · intro w hw hcode
    have hunits := warnsOfUnits_ofUnits (SourceUnit.split input) w hw
    rw [hcode] at hunits
    rcases hunits with h | h <;> cases h
  · intro w hw
    rw [code_of_mem_unknownSchemas hw]
    exact DiagnosticCode.noConfusion

end Catalog

-- ==================================================== inputs

section

open Catalog Assembly

/-- Every schema is that of the declaration that comes last among all
whose identifiers resolve to its id. -/
def SchemasLatest (input : Text) : Prop :=
  ∀ n ∈ (extract input).graph.schemas, ∃ d ∈ found input,
    (scan input).displayName d.name = n.id ∧ n.declaredName = d.name
      ∧ n.fields = (Field.split d.body).map Field.name
      ∧ ∀ e ∈ found input, (scan input).displayName e.name = n.id →
        e.span.start ≤ d.span.start

/-- In every report of a collision the primary label lies behind the
secondary one. -/
def ReplacesEarlier (input : Text) : Prop :=
  ∀ g ∈ (extract input).diagnostics, g.code = some .sharedDisplayName →
    ∀ p ∈ g.labels, ∀ s ∈ g.labels, p.isPrimary = true → s.isPrimary = false →
      s.span.stop ≤ p.span.start

/-- No identifier is declared again behind the last declaration of
another one that was first declared later and has the same display
name. -/
def NoneOvertakes (input : Text) : Prop :=
  ∀ d e, IsLast input d → IsLast input e →
    (scan input).displayName d.name = (scan input).displayName e.name →
    firstStart input d.name < firstStart input e.name → d.span.start < e.span.start

variable {input : Text}

theorem noneOvertakes_iff :
    NoneOvertakes input ↔ (scan input).declarations.values.Pairwise fun d e =>
      idOf (scan input) d = idOf (scan input) e → d.EndsBefore e := by
  constructor
  · intro h
    refine (pairwise_values input).imp_of_mem ?_
    intro d e hd he hlt hid
    have hdlast := mem_values_iff.1 hd
    have helast := mem_values_iff.1 he
    exact endsBefore_of_start_lt hdlast.1 helast.1 (h d e hdlast helast hid hlt)
  · intro h d e hd he hid hlt
    have hde := OrderedMap.rel_of_pos_lt _ (pairwise_values input) h (mem_values_iff.2 hd)
      (mem_values_iff.2 he) hlt hid
    exact Nat.lt_of_lt_of_le (start_lt_stop_of_mem_found hd.1) hde

theorem replacesEarlier_iff : ReplacesEarlier input ↔ NoneOvertakes input := by
  rw [noneOvertakes_iff, ← labels_inOrder_iff (scan input) (firstStart input ·.name)
    (pairwise_values input)]
  constructor
  · intro h w hw
    obtain ⟨d, -, e, -, -, -, rfl⟩ :=
      exists_collision (scan input) (firstStart input ·.name) (pairwise_values input) hw
    have hmem : (collision (scan input) d e).diagnostic ∈ (extract input).diagnostics :=
      List.mem_map_of_mem (List.mem_append_right _ hw)
    exact h _ hmem rfl _ List.mem_cons_self _ (List.mem_cons_of_mem _ List.mem_cons_self) rfl rfl
  · intro h g hg hcode p hp s hs hprimary hsecondary
    obtain ⟨w, hw, rfl⟩ := List.mem_map.1 hg
    rw [Warning.code_diagnostic] at hcode
    rcases List.mem_append.1 hw with hw | hw
    · exact absurd (Option.some.inj hcode) (unshared_scan input w hw)
    · have hordered := h w hw
      obtain ⟨d, -, e, -, -, -, rfl⟩ :=
        exists_collision (scan input) (firstStart input ·.name) (pairwise_values input) hw
      rcases List.mem_pair.1 hp with rfl | rfl
      · rcases List.mem_pair.1 hs with rfl | rfl
        · cases hsecondary
        · exact hordered
      · cases hprimary

/-- The declaration that a schema comes from. -/
theorem exists_declaration_of_mem_schemas {n : SchemaNode}
    (h : n ∈ (extract input).graph.schemas) :
    ∃ d, IsLast input d ∧ n = nodeOf (scan input) d
      ∧ ∀ e ∈ found input, (scan input).displayName e.name = n.id →
        firstStart input e.name ≤ firstStart input d.name := by
  obtain ⟨entry, hentry, rfl⟩ := List.mem_map.1 h
  obtain ⟨⟨id, entry'⟩, hmem, rfl⟩ := List.mem_map.1 hentry
  obtain ⟨d, hd, hid, rfl, hlast⟩ := exists_source (scan input) (firstStart input ·.name)
    (pairwise_values input) (OrderedMap.get?_eq_some_iff.2 hmem)
  refine ⟨d, mem_values_iff.1 hd, rfl, ?_⟩
  intro e he heid
  obtain ⟨e', he', hname, -⟩ := exists_isLast he
  rw [← hname] at heid ⊢
  exact hlast e' he' (heid.trans hid)

theorem schemasLatest_of_noneOvertakes (h : NoneOvertakes input) : SchemasLatest input := by
  intro n hn
  obtain ⟨d, hd, rfl, hfirst⟩ := exists_declaration_of_mem_schemas hn
  refine ⟨d, hd.1, rfl, rfl, rfl, ?_⟩
  intro e he heid
  obtain ⟨e', he', hname, helast⟩ := exists_isLast he
  have hle : e.span.start ≤ e'.span.start := helast.2 e he hname.symm
  have hfirst' := hfirst e he heid
  rw [← hname] at hfirst' heid
  by_cases heq : firstStart input e'.name = firstStart input d.name
  · have hsame : e' = d :=
      OrderedMap.eq_of_pos_eq _ (pairwise_values input) he' (mem_values_iff.2 hd) heq
    rwa [hsame] at hle
  · have hlt := h e' d helast hd heid (by omega)
    omega

/-- What comes of collisions, for every input. A schema comes from the
last declaration of the identifier that is first declared last among
those with its display name, and each collision is reported for two
identifiers in the order of their first declarations. So the later
declaration wins throughout exactly when none overtakes another. -/
theorem collisions_spec (input : Text) :
    (∀ n ∈ (extract input).graph.schemas, ∃ d, IsLast input d
        ∧ (scan input).displayName d.name = n.id ∧ n.declaredName = d.name
        ∧ n.fields = (Field.split d.body).map Field.name
        ∧ ∀ e ∈ found input, (scan input).displayName e.name = n.id →
          firstStart input e.name ≤ firstStart input d.name)
      ∧ (∀ w ∈ (extract input).warnings, w.code = .sharedDisplayName →
        ∃ d e, IsLast input d ∧ IsLast input e
          ∧ (scan input).displayName d.name = (scan input).displayName e.name
          ∧ firstStart input d.name < firstStart input e.name
          ∧ w = .sharedDisplayName d.name e.name ((scan input).displayName e.name) e.span d.span)
      ∧ ((SchemasLatest input ∧ ReplacesEarlier input) ↔ NoneOvertakes input) := by
  refine ⟨?_, ?_, ?_⟩
  · intro n hn
    obtain ⟨d, hd, rfl, hfirst⟩ := exists_declaration_of_mem_schemas hn
    exact ⟨d, hd, rfl, rfl, rfl, hfirst⟩
  · intro w hw hcode
    rcases List.mem_append.1 hw with hw | hw
    · exact absurd hcode (unshared_scan input w hw)
    · obtain ⟨d, hd, e, he, hid, hlt, rfl⟩ :=
        exists_collision (scan input) (firstStart input ·.name) (pairwise_values input) hw
      exact ⟨d, e, mem_values_iff.1 hd, mem_values_iff.1 he, hid, hlt, rfl⟩
  · constructor
    · intro h
      exact replacesEarlier_iff.1 h.2
    · intro h
      exact ⟨schemasLatest_of_noneOvertakes h, replacesEarlier_iff.2 h⟩

/-- Two schemas of one model, the first of which is declared again. -/
def overtaking : Text :=
  ("var A = Schema(\x7b a: N \x7d);\nvar B = Schema(\x7b b: N \x7d);\n" ++
    "var A = Schema(\x7b c: N \x7d);\nmodel('X', A);\nmodel('X', B);\n").toList

/-- The declaration that comes last does not win: the schema of the
model is that of `B`, and the report points ahead. -/
theorem not_latest_overtaking : ¬ SchemasLatest overtaking ∧ ¬ ReplacesEarlier overtaking := by
  constructor
  · unfold SchemasLatest
    decide +kernel
  · unfold ReplacesEarlier
    decide +kernel

end

end SchemaAtlas
