/-
The assembly of a catalog, declaration by declaration. Each declaration
writes one schema under its display name and adds the relationships of
its fields; a warning tells of every display name that was written
before, so without one the display names are distinct.

- `schemas_of`, `relationships_of`: what the assembly holds.
- `warnings_of_eq_nil_iff`: no warning, no shared display name.
-/
import SchemaAtlas.Extraction
import SchemaAtlas.Proofs.OrderedMap

namespace SchemaAtlas

namespace Assembly

variable (c : Catalog)

-- ==================================================== one declaration

/-- The id that a declaration gets. -/
def idOf (d : Declaration) : String :=
  c.displayName d.name

/-- The schema that a declaration becomes. -/
def nodeOf (d : Declaration) : SchemaNode :=
  ⟨idOf c d, d.name, (Field.split d.body).map Field.name⟩

/-- The relationships of a declaration's fields. -/
def relationshipsOf (d : Declaration) : List Relationship :=
  (Field.split d.body).filterMap fun f => f.relationship? (idOf c d) c

section

variable (a : Assembly) (d : Declaration)

theorem schemas_add :
    (a.add c d).schemas = a.schemas.insert (idOf c d) (nodeOf c d, d.span) := rfl

theorem relationships_add :
    (a.add c d).relationships = a.relationships ++ relationshipsOf c d := rfl

theorem warnings_add_of_not_mem (h : idOf c d ∉ a.schemas.keys) :
    (a.add c d).warnings = a.warnings := by
  have hget : a.schemas.get? (c.displayName d.name) = none := OrderedMap.get?_eq_none_iff.2 h
  simp only [add, hget]

theorem warnings_add_of_mem (h : idOf c d ∈ a.schemas.keys) :
    ∃ w : Warning, w.code = .sharedDisplayName ∧ (a.add c d).warnings = a.warnings ++ [w] := by
  cases hget : a.schemas.get? (c.displayName d.name) with
  | none => exact absurd h (OrderedMap.get?_eq_none_iff.1 hget)
  | some e =>
      simp only [add, hget]
      exact ⟨_, rfl, rfl⟩

end

-- ==================================================== all declarations

section

variable (a : Assembly) (ds : List Declaration)

theorem schemas_foldl_add :
    (ds.foldl (add c) a).schemas =
      ds.foldl (fun m d => m.insert (idOf c d) (nodeOf c d, d.span)) a.schemas :=
  (List.foldl_hom schemas fun a d => (schemas_add c a d).symm).symm

theorem relationships_foldl_add :
    (ds.foldl (add c) a).relationships = a.relationships ++ ds.flatMap (relationshipsOf c) := by
  induction ds generalizing a with
  | nil => simp
  | cons d ds ih =>
      rw [List.foldl_cons, ih, relationships_add, List.flatMap_cons, List.append_assoc]

/-- Each warning of the assembly tells of a shared display name. -/
theorem warnings_foldl_add :
    ∃ ws : List Warning, (∀ w ∈ ws, w.code = .sharedDisplayName) ∧
      (ds.foldl (add c) a).warnings = a.warnings ++ ws ∧
      (ws = [] ↔ (a.schemas.keys ++ ds.map (idOf c)).Nodup) := by
  induction ds generalizing a with
  | nil =>
      refine ⟨[], List.forall_mem_nil _, (List.append_nil _).symm, ?_⟩
      have hkeys : (a.schemas.keys ++ [].map (idOf c)).Nodup := by
        rw [List.map_nil, List.append_nil]
        exact a.schemas.nodup_keys
      exact iff_of_true rfl hkeys
  | cons d ds ih =>
      obtain ⟨ws, hcode, hwarnings, hiff⟩ := ih (a.add c d)
      by_cases hd : idOf c d ∈ a.schemas.keys
      · obtain ⟨w, hw, hadd⟩ := warnings_add_of_mem c a d hd
        refine ⟨w :: ws, ?_, ?_, ?_⟩
        · intro v hv
          rcases List.mem_cons.1 hv with rfl | hv
          · exact hw
          · exact hcode v hv
        · rw [List.foldl_cons, hwarnings, hadd, List.append_assoc]
          rfl
        · have hshared : ¬ (a.schemas.keys ++ (d :: ds).map (idOf c)).Nodup := fun h =>
            OrderedMap.not_mem_keys_of_nodup h hd
          exact iff_of_false (List.cons_ne_nil w ws) hshared
      · have hkeys : (a.add c d).schemas.keys = a.schemas.keys ++ [idOf c d] := by
          rw [schemas_add, OrderedMap.keys_insert, if_neg hd]
        refine ⟨ws, hcode, ?_, ?_⟩
        · rw [List.foldl_cons, hwarnings, warnings_add_of_not_mem c a d hd]
        · rw [hiff, hkeys, List.append_assoc]
          rfl

end

-- ==================================================== catalogs

theorem schemas_of :
    (of c).schemas =
      c.declarations.values.foldl (fun m d => m.insert (idOf c d) (nodeOf c d, d.span)) .empty :=
  schemas_foldl_add c empty _

/-- The relationships of a catalog are those of its declarations. -/
theorem relationships_of :
    (of c).relationships = c.declarations.values.flatMap (relationshipsOf c) :=
  relationships_foldl_add c empty _

theorem code_of_mem_warnings {w : Warning} (h : w ∈ (of c).warnings) :
    w.code = .sharedDisplayName := by
  obtain ⟨ws, hcode, hwarnings, -⟩ := warnings_foldl_add c empty c.declarations.values
  unfold of at h
  rw [hwarnings] at h
  exact hcode w h

/-- The assembly warns of nothing exactly when display names are
distinct. -/
theorem warnings_of_eq_nil_iff :
    (of c).warnings = [] ↔ (c.declarations.values.map (idOf c)).Nodup := by
  obtain ⟨ws, -, hwarnings, hiff⟩ := warnings_foldl_add c empty c.declarations.values
  unfold of
  rw [hwarnings]
  exact hiff

/-- Under distinct display names every declaration keeps its schema. -/
theorem values_schemas_of (h : (c.declarations.values.map (idOf c)).Nodup) :
    (of c).schemas.values = c.declarations.values.map fun d => (nodeOf c d, d.span) := by
  have hentries : (of c).schemas.entries =
      c.declarations.values.map fun d => (idOf c d, nodeOf c d, d.span) := by
    rw [schemas_of]
    exact OrderedMap.entries_foldl_insert (idOf c) (fun d => (nodeOf c d, d.span)) h
  rw [OrderedMap.values, hentries, List.map_map]
  rfl

end Assembly

end SchemaAtlas
