/-
Extracted graphs are well formed, whatever the text.

Redeclarations and shared display names overwrite schemas but keep the
relationships of the schemas overwritten. What holds all the same comes
from two facts about the declarations of the catalog: every declaration
leaves a schema under its display name, whichever declaration wrote it
last (`Assembly.contains_graph`), and every relationship stands for a
field of some declaration (`Assembly.StandsFor`). So a relationship
starts at a schema of the graph, and a nested schema is in the graph
too, since only declared names are nested. Only that the field still
belongs to the schema needs that no display name is shared.

- `Relationship.Agrees`: mechanism and risk are what the kind says.
- `Extraction.WellFormed`: what can be relied on.
- `wellFormed_extract`: every extraction is well formed.
-/
import SchemaAtlas.Proofs.Catalog.Basic
import SchemaAtlas.Proofs.Extraction.Assembly
import SchemaAtlas.Proofs.Extraction.Reference

namespace SchemaAtlas

/-- What can be relied on in an extraction. -/
structure Extraction.WellFormed (e : Extraction) : Prop where
  /-- No two schemas share an id. -/
  nodup_ids : (e.graph.schemas.map SchemaNode.id).Nodup
  /-- A relationship starts at a schema of the graph. -/
  contains_source : ∀ r ∈ e.graph.relationships, e.graph.contains r.source = true
  /-- What is embedded is another schema of the graph. -/
  contains_embedded : ∀ r ∈ e.graph.relationships, r.mechanism = .embedded →
    e.graph.contains r.target = true ∧ r.target ≠ r.source
  /-- Only a foreign key can lead out of the graph. -/
  foreignKey_of_broken : ∀ r ∈ e.graph.relationships, e.graph.contains r.target = false →
    r.mechanism = .foreignKey
  /-- Foreign keys are to one or to many, and deletion can break them. -/
  foreignKey : ∀ r ∈ e.graph.relationships, r.mechanism = .foreignKey →
    (r.kind = .oneToOne ∨ r.kind = .oneToMany) ∧ r.deletionRisk = true
  /-- Embeddings are of one or of many, and deletion cannot break them. -/
  embedded : ∀ r ∈ e.graph.relationships, r.mechanism = .embedded →
    (r.kind = .embeddedOne ∨ r.kind = .embeddedMany) ∧ r.deletionRisk = false
  /-- Unless display names are shared, a relationship belongs to a field
  of the schema it starts at. -/
  field_mem : (∀ d ∈ e.diagnostics, d.code.map DiagnosticCode.label ≠ some "W202") →
    ∀ r ∈ e.graph.relationships, ∃ n ∈ e.graph.schemas, n.id = r.source ∧ r.field ∈ n.fields

-- ==================================================== kinds

namespace RelationKind

/-- How relationships of a kind are made. -/
def mechanism : RelationKind → ReferenceMechanism
  | oneToOne | oneToMany => .foreignKey
  | embeddedOne | embeddedMany => .embedded

variable {k : RelationKind}

theorem mechanism_eq_foreignKey_iff : k.mechanism = .foreignKey ↔ k = oneToOne ∨ k = oneToMany := by
  cases k <;> simp [mechanism]

theorem mechanism_eq_embedded_iff :
    k.mechanism = .embedded ↔ k = embeddedOne ∨ k = embeddedMany := by
  cases k <;> simp [mechanism]

end RelationKind

namespace Relationship

/-- Mechanism and risk of a relationship are what its kind says. -/
structure Agrees (r : Relationship) : Prop where
  mechanism : r.mechanism = r.kind.mechanism
  risk : r.deletionRisk = true ↔ r.kind.mechanism = .foreignKey

variable {r : Relationship}

/-- A foreign key agrees with the kind it is given if that is one of
foreign keys. -/
theorem agrees_foreignKey (source target field : String) {kind : RelationKind}
    (h : kind.mechanism = .foreignKey) : (foreignKey source target field kind).Agrees :=
  ⟨h.symm, iff_of_true rfl h⟩

theorem agrees_embedded (source target field : String) (many : Bool) :
    (embedded source target field many).Agrees := by
  have h : (RelationKind.embedding many).mechanism = .embedded := by cases many <;> rfl
  exact ⟨h.symm, iff_of_false Bool.false_ne_true (by rw [embedded, h]; exact nofun)⟩

theorem Agrees.of_foreignKey (h : r.Agrees) (hm : r.mechanism = .foreignKey) :
    (r.kind = .oneToOne ∨ r.kind = .oneToMany) ∧ r.deletionRisk = true := by
  rw [h.mechanism] at hm
  exact ⟨RelationKind.mechanism_eq_foreignKey_iff.1 hm, h.risk.2 hm⟩

theorem Agrees.of_embedded (h : r.Agrees) (hm : r.mechanism = .embedded) :
    (r.kind = .embeddedOne ∨ r.kind = .embeddedMany) ∧ r.deletionRisk = false := by
  rw [h.mechanism] at hm
  refine ⟨RelationKind.mechanism_eq_embedded_iff.1 hm, Bool.eq_false_iff.2 fun hrisk => ?_⟩
  cases hm.symm.trans (h.risk.1 hrisk)

end Relationship

namespace Assembly

variable (c : Catalog)

-- ==================================================== schemas

/-- Every schema is filed under its own id. -/
theorem id_of_mem_entries {e : String × SchemaNode × Span} (he : e ∈ (of c).schemas.entries) :
    e.2.1.id = e.1 := by
  have hfiled : ∀ e ∈ (of c).schemas.entries, e.2.1.id = e.1 := by
    rw [schemas_of]
    exact OrderedMap.forall_entries_foldl_insert (idOf c) (fun d => (nodeOf c d, d.span))
      (List.forall_mem_nil _) fun _ _ => rfl
  exact hfiled e he

theorem ids_graph : (of c).graph.schemas.map SchemaNode.id = (of c).schemas.keys := by
  rw [graph, OrderedMap.values, OrderedMap.keys, List.map_map, List.map_map]
  exact List.map_congr_left fun e he => id_of_mem_entries c he

/-- The ids of the graph are the display names of the declarations. -/
theorem contains_graph {id : String} :
    (of c).graph.contains id = true ↔ ∃ d ∈ c.declarations.values, idOf c d = id := by
  have hcontains : (of c).graph.contains id = true ↔
      id ∈ (of c).graph.schemas.map SchemaNode.id := by
    simp [SchemaGraph.contains]
  rw [hcontains, ids_graph, schemas_of,
    OrderedMap.mem_keys_foldl_insert (idOf c) (fun d => (nodeOf c d, d.span)), List.mem_map]
  exact or_iff_right (List.not_mem_nil)

-- ==================================================== relationships

/-- The relationship stands for a field of the declaration: it starts at
its schema, and it was made as a foreign key or embeds another schema. -/
structure StandsFor (c : Catalog) (d : Declaration) (r : Relationship) : Prop where
  source_eq : r.source = idOf c d
  field_mem : r.field ∈ (nodeOf c d).fields
  made : (∃ many, r = .foreignKey r.source r.target r.field (.foreignKey many)) ∨
    (∃ many, r = .embedded r.source r.target r.field many) ∧
      Reference.IsOtherSchema (idOf c d) c r.target

/-- Every relationship of the graph stands for a field. -/
theorem exists_standsFor {r : Relationship} (h : r ∈ (of c).graph.relationships) :
    ∃ d ∈ c.declarations.values, StandsFor c d r := by
  have hr : r ∈ (of c).relationships := h
  rw [relationships_of] at hr
  obtain ⟨d, hd, hr⟩ := List.mem_flatMap.1 hr
  obtain ⟨f, hf, hr⟩ := List.mem_filterMap.1 hr
  obtain ⟨e, he, rfl⟩ := Option.map_eq_some_iff.1 hr
  have hfield := List.mem_map_of_mem (f := Field.name) hf
  rcases Reference.read?_spec he with ⟨target, many, rfl⟩ | ⟨target, many, rfl, hother⟩
  · exact ⟨d, hd, rfl, hfield, Or.inl ⟨many, rfl⟩⟩
  · exact ⟨d, hd, rfl, hfield, Or.inr ⟨⟨many, rfl⟩, hother⟩⟩

end Assembly

-- ==================================================== extraction

section

variable {input : Text}

/-- Whatever is extracted agrees with its kind. -/
theorem agrees_of_mem_extract {r : Relationship}
    (hr : r ∈ (extract input).graph.relationships) : r.Agrees := by
  obtain ⟨d, -, h⟩ := Assembly.exists_standsFor (Catalog.scan input) hr
  rcases h.made with ⟨many, hmade⟩ | ⟨⟨many, hmade⟩, -⟩
  · rw [hmade]
    refine Relationship.agrees_foreignKey _ _ _ ?_
    cases many <;> rfl
  · rw [hmade]
    exact Relationship.agrees_embedded _ _ _ many

/-- What is embedded is a declared schema, hence one of the graph. -/
theorem contains_of_embedded {r : Relationship} (hr : r ∈ (extract input).graph.relationships)
    (hm : r.mechanism = .embedded) :
    (extract input).graph.contains r.target = true ∧ r.target ≠ r.source := by
  obtain ⟨d, hd, h⟩ := Assembly.exists_standsFor (Catalog.scan input) hr
  rcases h.made with ⟨many, hr⟩ | ⟨-, name, hname, htarget, hne⟩
  · rw [hr] at hm
    cases hm
  · obtain ⟨d', hd', rfl⟩ := Catalog.exists_declaration hname
    exact ⟨(Assembly.contains_graph _).2 ⟨d', hd', htarget⟩, h.source_eq ▸ hne⟩

/-- Without a shared display name every declaration keeps its schema. -/
theorem nodup_of_unshared
    (h : ∀ d ∈ (extract input).diagnostics, d.code.map DiagnosticCode.label ≠ some "W202") :
    ((Catalog.scan input).declarations.values.map (Assembly.idOf (Catalog.scan input))).Nodup := by
  rw [← Assembly.warnings_of_eq_nil_iff, List.eq_nil_iff_forall_not_mem]
  intro w hw
  have hmem : w.diagnostic ∈ (extract input).diagnostics :=
    List.mem_map_of_mem (List.mem_append_right _ hw)
  refine h w.diagnostic hmem ?_
  rw [Warning.code_diagnostic, Assembly.code_of_mem_warnings _ hw]
  rfl

end

/-- Every extraction is well formed. -/
theorem wellFormed_extract (input : Text) : (extract input).WellFormed where
  nodup_ids := by
    show ((Assembly.of (Catalog.scan input)).graph.schemas.map SchemaNode.id).Nodup
    rw [Assembly.ids_graph]
    exact (Assembly.of (Catalog.scan input)).schemas.nodup_keys
  contains_source := by
    intro r hr
    obtain ⟨d, hd, h⟩ := Assembly.exists_standsFor (Catalog.scan input) hr
    exact (Assembly.contains_graph _).2 ⟨d, hd, h.source_eq.symm⟩
  contains_embedded := fun _ hr hm => contains_of_embedded hr hm
  foreignKey_of_broken := by
    intro r hr hbroken
    cases hm : r.mechanism with
    | foreignKey => rfl
    | embedded =>
        rw [(contains_of_embedded hr hm).1] at hbroken
        cases hbroken
  foreignKey := fun _ hr hm => (agrees_of_mem_extract hr).of_foreignKey hm
  embedded := fun _ hr hm => (agrees_of_mem_extract hr).of_embedded hm
  field_mem := by
    intro hunshared r hr
    obtain ⟨d, hd, h⟩ := Assembly.exists_standsFor (Catalog.scan input) hr
    refine ⟨Assembly.nodeOf (Catalog.scan input) d, ?_, h.source_eq.symm, h.field_mem⟩
    show _ ∈ (Assembly.of (Catalog.scan input)).graph.schemas
    rw [Assembly.graph, Assembly.values_schemas_of _ (nodup_of_unshared hunshared), List.map_map]
    exact List.mem_map_of_mem hd

end SchemaAtlas
