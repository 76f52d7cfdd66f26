/-
The catalog of a rendered blueprint. Its declarations are those of the
blueprint's schemas, in their order; it knows each schema's display
name and no other schema, and it has nothing to warn of.

- `Describes`: what a catalog says when it stands for a blueprint.
- `scan_render`: the catalog of the rendered text does.
-/
import Mathlib.Data.List.Nodup
import SchemaAtlas.Proofs.Blueprint.Unit
import SchemaAtlas.Proofs.Catalog.Basic

namespace SchemaAtlas

namespace Blueprint

variable {b : List SchemaPlan}

/-- The catalog stands for the blueprint. -/
structure Describes (b : List SchemaPlan) (c : Catalog) : Prop where
  /-- The declarations are those of the schemas, in their order. -/
  declared : List.Forall₂ SchemaPlan.IsDeclaredBy b c.declarations.values
  /-- The names of the schemas are the declared ones. -/
  declares_iff : ∀ w : Word, c.declares w.name = true ↔ w ∈ names b
  /-- Every schema is shown under the name the blueprint gives it. -/
  displayName_eq : ∀ s ∈ b, c.displayName s.name.name = s.displayName
  warnings_nil : c.warnings = []

-- ==================================================== corresponding lists

/-- What stands in one of two lists that correspond has a counterpart
in the other. -/
theorem exists_of_forall₂ {α β : Type} {R : α → β → Prop} {xs : List α} {ys : List β}
    (h : List.Forall₂ R xs ys) : ∀ y ∈ ys, ∃ x ∈ xs, R x y := by
  induction h with
  | nil => simp
  | @cons x y xs ys hxy _ ih =>
      intro z hz
      rcases List.mem_cons.1 hz with rfl | hz
      · exact ⟨x, List.mem_cons_self, hxy⟩
      · obtain ⟨w, hw, hwz⟩ := ih z hz
        exact ⟨w, List.mem_cons_of_mem x hw, hwz⟩

/-- Lists that correspond have the same image if their members do. -/
theorem map_eq_of_forall₂ {α β γ : Type} {R : α → β → Prop} {f : α → γ} {g : β → γ}
    {xs : List α} {ys : List β} (h : List.Forall₂ R xs ys)
    (hfg : ∀ x ∈ xs, ∀ y, R x y → f x = g y) : xs.map f = ys.map g := by
  induction h with
  | nil => rfl
  | @cons x y xs ys hxy _ ih =>
      have hxs := ih fun z hz => hfg z (List.mem_cons_of_mem x hz)
      rw [List.map_cons, List.map_cons, hfg x List.mem_cons_self y hxy, hxs]

-- ==================================================== names

theorem declarationNames_eq {ds : List Declaration}
    (h : List.Forall₂ SchemaPlan.IsDeclaredBy b ds) :
    ds.map Declaration.name = (names b).map Word.name := by
  rw [names, List.map_map]
  exact (map_eq_of_forall₂ h fun _ _ _ hd => hd.1.symm).symm

theorem registrationNames_eq {rs : List Registration}
    (h : List.Forall₂ SchemaPlan.IsRegisteredBy b rs) :
    rs.map Registration.schemaName = (names b).map Word.name := by
  rw [names, List.map_map]
  exact (map_eq_of_forall₂ h fun _ _ _ hr => hr.1.symm).symm

theorem nodup_wordNames {ws : List Word} (h : ws.Nodup) : (ws.map Word.name).Nodup := by
  refine (List.nodup_map_iff_inj_on h).2 ?_
  intro v _ w _ e
  exact Word.name_inj.1 e

/-- Schemas of one name are the same. -/
theorem eq_of_name_eq (h : (names b).Nodup) {s t : SchemaPlan} (hs : s ∈ b) (ht : t ∈ b)
    (e : s.name.name = t.name.name) : s = t :=
  List.inj_on_of_nodup_map h hs ht (Word.name_inj.1 e)

-- ==================================================== additions

section

variable {ds : List Declaration} {rs : List Registration} (hnames : (names b).Nodup)
  (hds : List.Forall₂ SchemaPlan.IsDeclaredBy b ds)
  (hrs : List.Forall₂ SchemaPlan.IsRegisteredBy (b.filter fun s => s.model.isSome) rs)
include hnames

include hds in
/-- No declaration replaces another. -/
theorem nodup_declarationNames :
    (Catalog.empty.declarations.keys ++ ds.map Declaration.name).Nodup := by
  show ([] ++ ds.map Declaration.name).Nodup
  rw [List.nil_append, declarationNames_eq hds]
  exact nodup_wordNames hnames

include hds in
theorem declarations_entries :
    (Catalog.empty.add ⟨ds, rs, []⟩).declarations.entries = ds.map fun d => (d.name, d) := by
  rw [Catalog.declarations_add]
  exact OrderedMap.entries_foldl_insert Declaration.name id (nodup_declarationNames hnames hds)

include hrs in
theorem registrations_entries :
    (Catalog.empty.add ⟨ds, rs, []⟩).registrations.entries =
      rs.map fun r => (r.schemaName, r) := by
  rw [Catalog.registrations_add]
  refine OrderedMap.entries_foldl_insert Registration.schemaName id ?_
  show ([] ++ rs.map Registration.schemaName).Nodup
  rw [List.nil_append, registrationNames_eq hrs]
  exact nodup_wordNames (hnames.sublist (List.filter_sublist.map _))

include hds in
theorem declares_add (w : Word) :
    (Catalog.empty.add ⟨ds, rs, []⟩).declares w.name = true ↔ w ∈ names b := by
  have hkeys : (Catalog.empty.add ⟨ds, rs, []⟩).declarations.keys = (names b).map Word.name := by
    rw [OrderedMap.keys, declarations_entries hnames hds, List.map_map, ← declarationNames_eq hds]
    rfl
  rw [Catalog.declares, OrderedMap.contains_iff, hkeys, List.mem_map]
  constructor
  · rintro ⟨v, hv, e⟩
    exact Word.name_inj.1 e ▸ hv
  · intro hw
    exact ⟨w, hw, rfl⟩

include hrs in
theorem displayName_add {s : SchemaPlan} (hs : s ∈ b) :
    (Catalog.empty.add ⟨ds, rs, []⟩).displayName s.name.name = s.displayName := by
  have hentries : (Catalog.empty.add ⟨ds, rs, []⟩).registrations.entries =
      rs.map fun r => (r.schemaName, r) := registrations_entries hnames hrs
  cases hm : s.model with
  | none =>
      -- a registration of this name would be that of the schema itself
      have hget : (Catalog.empty.add ⟨ds, rs, []⟩).registrations.get? s.name.name = none := by
        rw [OrderedMap.get?_eq_none_iff, OrderedMap.keys, hentries, List.map_map]
        intro hk
        obtain ⟨r, hr, e⟩ := List.mem_map.1 hk
        obtain ⟨t, ht, htr⟩ := exists_of_forall₂ hrs r hr
        obtain ⟨htb, htm⟩ := List.mem_filter.1 ht
        have hst : t = s := eq_of_name_eq hnames htb hs (htr.1.symm.trans e)
        rw [hst, hm] at htm
        cases htm
      rw [Catalog.displayName, hget, SchemaPlan.displayName, hm]
  | some m =>
      have hs' : s ∈ b.filter fun s => s.model.isSome := List.mem_filter.2 ⟨hs, by rw [hm]; rfl⟩
      obtain ⟨r, hr, hsr⟩ := exists_of_forall₂ hrs.flip s hs'
      have hget : (Catalog.empty.add ⟨ds, rs, []⟩).registrations.get? s.name.name = some r := by
        rw [OrderedMap.get?_eq_some_iff, hentries, ← hsr.1]
        exact List.mem_map.2 ⟨r, hr, rfl⟩
      have hname : some (String.ofList m.text) = some r.displayName := by
        rw [← hsr.2, hm]
        rfl
      rw [Catalog.displayName, hget, SchemaPlan.displayName, hm]
      exact (Option.some.inj hname).symm

include hds hrs in
theorem unknownSchemas_add : (Catalog.empty.add ⟨ds, rs, []⟩).unknownSchemas = [] := by
  have hvalues : (Catalog.empty.add ⟨ds, rs, []⟩).registrations.values = rs := by
    rw [OrderedMap.values, registrations_entries hnames hrs, List.map_map]
    exact List.map_id rs
  rw [Catalog.unknownSchemas, hvalues, List.filterMap_eq_nil_iff]
  intro r hr
  obtain ⟨s, hs, hsr⟩ := exists_of_forall₂ hrs r hr
  have hmem : s.name ∈ names b := List.mem_map_of_mem (List.mem_filter.1 hs).1
  rw [hsr.1, if_pos ((declares_add hnames hds s.name).2 hmem)]

end

/-- The catalog of a rendered blueprint stands for it. -/
theorem scan_render (h : (names b).Nodup) : Describes b (Catalog.scan (render b)) := by
  obtain ⟨ds, rs, hds, hrs, hunits⟩ := ofUnits_render b
  have hwarnings : (Catalog.empty.add ⟨ds, rs, []⟩).warnings = [] := by
    unfold Catalog.add
    rw [Catalog.warnings_foldl_register]
    exact Catalog.warnings_foldl_declare Catalog.empty ds (nodup_declarationNames h hds)
  unfold Catalog.scan
  rw [hunits]
  constructor
  · show List.Forall₂ SchemaPlan.IsDeclaredBy b (Catalog.empty.add ⟨ds, rs, []⟩).declarations.values
    rw [OrderedMap.values, declarations_entries h hds, List.map_map]
    show List.Forall₂ SchemaPlan.IsDeclaredBy b (ds.map id)
    rwa [List.map_id]
  · exact declares_add h hds
  · intro s hs
    exact displayName_add h hrs hs
  · show _ ++ _ = []
    rw [hwarnings, unknownSchemas_add h hds hrs]
    rfl

end Blueprint

end SchemaAtlas
