/-
Extraction reads a rendered blueprint as the blueprint's own graph. The
text is one unit; its catalog stands for the blueprint; the bodies fall
apart into the fields; the fields refer to what their shapes say; and
since display names are distinct, no schema replaces another.

- `extract_render`: the graph of a rendered blueprint, without warnings.
-/
import SchemaAtlas.Proofs.Blueprint.Target
import SchemaAtlas.Proofs.Extraction.Assembly

namespace SchemaAtlas

namespace Blueprint

-- ==================================================== declarations

variable {b : List SchemaPlan} {c : Catalog} (hc : Describes b c)
include hc

theorem idOf_declaration {s : SchemaPlan} (hs : s ∈ b) {d : Declaration} (hd : s.IsDeclaredBy d) :
    Assembly.idOf c d = s.displayName := by
  rw [Assembly.idOf, hd.1, hc.displayName_eq s hs]

/-- A declaration becomes the schema it was written for. -/
theorem nodeOf_declaration {s : SchemaPlan} (hs : s ∈ b) {d : Declaration}
    (hd : s.IsDeclaredBy d) : s.node = Assembly.nodeOf c d := by
  have hfields : s.fields.map (fun f => f.name.name) = (Field.split d.body).map Field.name := by
    rw [hd.2]
    exact map_eq_of_forall₂ (split_body s) fun f _ e he => he.1.symm
  rw [SchemaPlan.node, Assembly.nodeOf, idOf_declaration hc hs hd, hd.1, hfields]

/-- The relationships of a declaration are those of its schema. -/
theorem relationshipsOf_declaration (hvalid : Valid b) {s : SchemaPlan} (hs : s ∈ b)
    {d : Declaration} (hd : s.IsDeclaredBy d) :
    s.relationships b = Assembly.relationshipsOf c d := by
  have hfields : s.fields.map (fun f => (f.shape.reference? b).map
        (Reference.relationship s.displayName f.name.name)) =
      (Field.split d.body).map fun e => e.relationship? s.displayName c := by
    rw [hd.2]
    exact map_eq_of_forall₂ (split_body s) fun f hf e he =>
      (relationship?_field hvalid hc hs hf he).symm
  have hids := congrArg (List.filterMap id) hfields
  rw [List.filterMap_map, List.filterMap_map] at hids
  rw [Assembly.relationshipsOf, idOf_declaration hc hs hd]
  exact hids

/-- The assembly of the catalog is the blueprint's graph. -/
theorem graph_assembly (hvalid : Valid b) :
    (Assembly.of c).graph = graph b ∧ (Assembly.of c).warnings = [] := by
  have hids : b.map SchemaPlan.displayName = c.declarations.values.map (Assembly.idOf c) :=
    map_eq_of_forall₂ hc.declared fun s hs d hd => (idOf_declaration hc hs hd).symm
  have hnodup : (c.declarations.values.map (Assembly.idOf c)).Nodup :=
    hids ▸ hvalid.nodup_displayNames
  have hnodes : b.map SchemaPlan.node = c.declarations.values.map (Assembly.nodeOf c) :=
    map_eq_of_forall₂ hc.declared fun s hs d hd => nodeOf_declaration hc hs hd
  have hrelationships : b.map (SchemaPlan.relationships b) =
      c.declarations.values.map (Assembly.relationshipsOf c) :=
    map_eq_of_forall₂ hc.declared fun s hs d hd => relationshipsOf_declaration hc hvalid hs hd
  refine ⟨?_, (Assembly.warnings_of_eq_nil_iff c).2 hnodup⟩
  rw [Assembly.graph, Assembly.values_schemas_of c hnodup, Assembly.relationships_of, graph, hnodes,
    List.map_map, List.flatMap_def, List.flatMap_def, hrelationships]
  rfl

omit hc

-- ==================================================== extraction

/-- Extraction gives back the graph of every valid blueprint, and has
nothing to warn of. -/
theorem extract_render (h : Valid b) : extract (render b) = ⟨graph b, []⟩ := by
  have hc : Describes b (Catalog.scan (render b)) := scan_render h.nodup_names
  obtain ⟨hgraph, hwarnings⟩ := graph_assembly hc h
  show Extraction.mk _ (_ ++ _) = _
  rw [hgraph, hwarnings, hc.warnings_nil]
  rfl

/-- A blueprint whose names and targets look like parts of the grammar:
a schema `type` with fields named `ref` and `const`, and a target made
of braces and comment marks. -/
def lookalikes : List SchemaPlan :=
  [{ keyword := .constWord, bindsName_keyword := rfl
     name := ⟨"type".toList, .refl true⟩, name_not_reserved := rfl
     constructed := true, qualified := true, typeArgument := some ⟨"I".toList, .refl true⟩
     fields :=
       [⟨⟨"ref".toList, .refl true⟩, .plain ⟨"ObjectId".toList, .refl true⟩⟩,
        ⟨⟨"const".toList, .refl true⟩, .nested true ⟨"ref".toList, .refl true⟩⟩]
     model := none },
   { keyword := .letWord, bindsName_keyword := rfl
     name := ⟨"ref".toList, .refl true⟩, name_not_reserved := rfl
     constructed := false, qualified := false, typeArgument := none
     fields :=
       [⟨⟨"type".toList, .refl true⟩, .reference false ⟨"\x7d//\x7b[ /*".toList, .refl true⟩⟩,
        ⟨⟨"model".toList, .refl true⟩, .nested false ⟨"type".toList, .refl true⟩⟩]
     model := some ⟨"Ref".toList, .refl true⟩ }]

theorem extract_render_lookalikes :
    Valid lookalikes ∧
      extract (render lookalikes) =
        ⟨⟨[⟨"type", "type", ["ref", "const"]⟩, ⟨"Ref", "ref", ["type", "model"]⟩],
          [.embedded "type" "Ref" "const" true,
           .foreignKey "Ref" "\x7d//\x7b[ /*" "type" .oneToOne,
           .embedded "Ref" "type" "model" false]⟩, []⟩ := by
  have hvalid : Valid lookalikes := by decide
  exact ⟨hvalid, extract_render hvalid⟩

end Blueprint

end SchemaAtlas
