/-
The order of files. Joined files are scanned one by one, so what is
found in them is found in any order of theirs; only its place and the
name of its unit change, and no schema, relationship or display name
depends on those. As long as nothing is declared, registered or shown
under one name twice, nothing is overwritten either, and the graph has
the same schemas and relationships. All issues but the cycles are then
about the same schemas.

- `SourceFile.perm_found`, `perm_registered`: what is found in files.
- `Assembly.perm_graph`: what agreeing catalogs are assembled to.
- `Issue.perm_subjects`: issues of graphs with the same members.
- `SourceFile.extract_join_perm`: all of this for files.
-/
import SchemaAtlas.Proofs.Catalog.Agreement
import SchemaAtlas.Proofs.Catalog.Merge
import SchemaAtlas.Proofs.Extraction.WellFormed
import SchemaAtlas.Proofs.Issue.Specification
import SchemaAtlas.Proofs.SourceFile

namespace SchemaAtlas

-- ==================================================== findings

/-- The declaration apart from where it was found. -/
def Declaration.bare (d : Declaration) : Declaration :=
  { d with span := default, bodyStart := 0, unit := none }

/-- What a registration says: an identifier and its display name. -/
def Registration.naming (r : Registration) : String × String :=
  (r.schemaName, r.displayName)

/-- The declarations of a unit, by its text alone. -/
theorem SourceUnit.bare_declarations_scan (u : SourceUnit) :
    u.scan.declarations.map Declaration.bare =
      (UnitScan.of none u.text).declarations.map Declaration.bare := by
  rw [u.declarations_scan, UnitScan.of_unit, List.map_map, List.map_map]
  rfl

/-- The registrations of a unit, by its text alone. -/
theorem SourceUnit.naming_registrations_scan (u : SourceUnit) :
    u.scan.registrations.map Registration.naming =
      (UnitScan.of none u.text).registrations.map Registration.naming := by
  rw [u.registrations_scan, UnitScan.of_unit, List.map_map]
  rfl

namespace SourceFile

open Catalog

variable {files files' : List SourceFile}

/-- What depends on the texts of units depends on the files alone. -/
theorem flatMap_unitsFrom {α : Type} (found : Text → List α) (here : Nat) :
    (unitsFrom here files).flatMap (fun u => found u.text) =
      files.flatMap fun f => found f.closedContent := by
  induction files generalizing here with
  | nil => rfl
  | cons f fs ih => rw [unitsFrom, List.flatMap_cons, List.flatMap_cons, ih]

theorem found_join (h : ∀ f ∈ files, f.IsPlain) :
    (found (join files)).map Declaration.bare =
      files.flatMap fun f =>
        (UnitScan.of none f.closedContent).declarations.map Declaration.bare := by
  rw [found, split_join h, List.map_flatMap]
  simp only [SourceUnit.bare_declarations_scan]
  exact flatMap_unitsFrom (fun t => (UnitScan.of none t).declarations.map Declaration.bare) 0

theorem registered_join (h : ∀ f ∈ files, f.IsPlain) :
    (registered (join files)).map Registration.naming =
      files.flatMap fun f =>
        (UnitScan.of none f.closedContent).registrations.map Registration.naming := by
  rw [registered, split_join h, List.map_flatMap]
  simp only [SourceUnit.naming_registrations_scan]
  exact flatMap_unitsFrom (fun t => (UnitScan.of none t).registrations.map Registration.naming) 0

section

variable (hfiles : files.Perm files') (h : ∀ f ∈ files, f.IsPlain)
include hfiles h

/-- The same declarations are found in any order of the files. -/
theorem perm_found :
    ((found (join files)).map Declaration.bare).Perm
      ((found (join files')).map Declaration.bare) := by
  rw [found_join h, found_join fun f hf => h f (hfiles.mem_iff.2 hf)]
  exact hfiles.flatMap_right _

/-- The same registrations are found in any order of the files. -/
theorem perm_registered :
    ((registered (join files)).map Registration.naming).Perm
      ((registered (join files')).map Registration.naming) := by
  rw [registered_join h, registered_join fun f hf => h f (hfiles.mem_iff.2 hf)]
  exact hfiles.flatMap_right _

end

end SourceFile

-- ==================================================== graphs

namespace Assembly

variable {c c' : Catalog} (h : c.Agrees c')
include h

theorem idOf_congr (d : Declaration) : idOf c d = idOf c' d.bare :=
  h.displayName_eq d.name

theorem nodeOf_congr (d : Declaration) : nodeOf c d = nodeOf c' d.bare := by
  rw [nodeOf, nodeOf, idOf_congr h]
  rfl

theorem relationshipsOf_congr (d : Declaration) :
    relationshipsOf c d = relationshipsOf c' d.bare := by
  rw [relationshipsOf, relationshipsOf, idOf_congr h]
  simp only [Field.relationship?, Reference.read?_congr h]
  rfl

/-- Agreeing catalogs of the same declarations, all under names of their
own, are assembled to graphs with the same members. -/
theorem perm_graph
    (hdeclarations : (c.declarations.values.map Declaration.bare).Perm
      (c'.declarations.values.map Declaration.bare))
    (hnodup : (c.declarations.values.map (idOf c)).Nodup) :
    (of c).graph.schemas.Perm (of c').graph.schemas ∧
      (of c).graph.relationships.Perm (of c').graph.relationships := by
  have hself := Catalog.Agrees.refl c'
  -- whatever depends on bare declarations alone is there in both
  have hmap : ∀ {α : Type} (f f' : Declaration → α), (∀ d, f d = f' d.bare) →
      (∀ d, f' d = f' d.bare) →
      (c.declarations.values.map f).Perm (c'.declarations.values.map f') := by
    intro α f f' hf hf'
    have hperm := hdeclarations.map f'
    rw [List.map_map, List.map_map] at hperm
    rwa [List.map_congr_left fun d _ => hf d, List.map_congr_left fun d _ => hf' d]
  have hids := hmap _ _ (idOf_congr h) (idOf_congr hself)
  constructor
  · rw [graph, graph, values_schemas_of c hnodup, values_schemas_of c' (hids.nodup_iff.1 hnodup),
      List.map_map, List.map_map]
    exact hmap _ _ (nodeOf_congr h) (nodeOf_congr hself)
  · show (of c).relationships.Perm (of c').relationships
    rw [relationships_of, relationships_of, List.flatMap_def, List.flatMap_def]
    exact (hmap _ _ (relationshipsOf_congr h) (relationshipsOf_congr hself)).flatten

end Assembly

-- ==================================================== issues

namespace Issue

variable {g g' : SchemaGraph} (hschemas : g.schemas.Perm g'.schemas)
  (hrelationships : g.relationships.Perm g'.relationships)

section

include hschemas

theorem perm_schemaIds : g.schemaIds.Perm g'.schemaIds := by
  rw [← ids_eq, ← ids_eq, SchemaGraph.ids, SchemaGraph.ids,
    List.perm_ext_iff_of_nodup (nodup_eraseDups _) (nodup_eraseDups _)]
  intro id
  rw [List.mem_eraseDups, List.mem_eraseDups]
  exact (hschemas.map SchemaNode.id).mem_iff

end

include hschemas hrelationships

theorem perm_unresolved : g.unresolved.Perm g'.unresolved := by
  have hknown : ∀ r : Relationship, decide (r.target ∉ g.schemas.map SchemaNode.id) =
      decide (r.target ∉ g'.schemas.map SchemaNode.id) := by
    intro r
    rw [decide_eq_decide, (hschemas.map SchemaNode.id).mem_iff]
  unfold SchemaGraph.unresolved
  rw [List.filter_congr fun r _ => hknown r]
  exact hrelationships.filter _

theorem perm_orphans : g.orphans.Perm g'.orphans := by
  have hends : ∀ p : Relationship → Prop,
      (∃ r ∈ g.relationships, p r) ↔ ∃ r ∈ g'.relationships, p r := by
    intro p
    simp only [hrelationships.mem_iff]
  unfold SchemaGraph.orphans
  simp only [hends]
  exact (perm_schemaIds hschemas).filter _

theorem perm_cascading (threshold : Nat) :
    (g.cascading threshold).Perm (g'.cascading threshold) := by
  have hkeys : ∀ id, (g.foreignKeys id).length = (g'.foreignKeys id).length :=
    fun id => (hrelationships.filter _).length_eq
  unfold SchemaGraph.cascading
  simp only [hkeys]
  exact (perm_schemaIds hschemas).filter _

/-- The issues of a category other than cycles are about the same
schemas. -/
theorem perm_subjects (threshold : Nat) {category : IssueCategory}
    (h : category ≠ .circularDependency) :
    ((group g threshold category).map subject).Perm
      ((group g' threshold category).map subject) := by
  cases category with
  | brokenReference =>
      rw [group, group, brokenGroup, brokenGroup, List.map_map, List.map_map]
      exact (perm_unresolved hschemas hrelationships).map Relationship.source
  | circularDependency => exact absurd rfl h
  | orphanRisk =>
      rw [group, group, orphanGroup, orphanGroup, List.map_map, List.map_map]
      exact (perm_orphans hschemas hrelationships).map id
  | cascadeRisk =>
      rw [group, group, cascadeGroup, cascadeGroup, List.map_map, List.map_map]
      exact (perm_cascading hschemas hrelationships threshold).map id

end Issue

-- ==================================================== inputs

namespace SourceFile

open Catalog

theorem fresh_of_unreported {input : Text}
    (h : ∀ d ∈ (extract input).diagnostics, d.code.map DiagnosticCode.label ≠ some "W201") :
    (scan input).Fresh := by
  intro w hw hcode
  have hmem : w.diagnostic ∈ (extract input).diagnostics :=
    List.mem_map_of_mem (List.mem_append_left _ hw)
  apply h w.diagnostic hmem
  rw [Warning.code_diagnostic, hcode]
  rfl

/-- The order of files does not matter without collisions: if the joined
files declare and register no identifier twice and show no two schemas
under one name, then joined in any other order they have the same
schemas and relationships, and the same schemas are the subjects of
issues of each category but the cycles. -/
theorem extract_join_perm {files files' : List SourceFile} (hfiles : files.Perm files')
    (hplain : ∀ f ∈ files, f.IsPlain)
    (hunreported : ∀ d ∈ (extract (join files)).diagnostics,
      d.code.map DiagnosticCode.label ≠ some "W201" ∧
        d.code.map DiagnosticCode.label ≠ some "W202")
    (hregistered : ((registered (join files)).map Registration.schemaName).Nodup) :
    (extract (join files)).graph.schemas.Perm (extract (join files')).graph.schemas ∧
      (extract (join files)).graph.relationships.Perm
        (extract (join files')).graph.relationships ∧
      ∀ (threshold : Nat) (category : IssueCategory), category ≠ .circularDependency →
        (((Issue.detect threshold (extract (join files)).graph).filter fun i =>
            i.category = category).map Issue.subject).Perm
          (((Issue.detect threshold (extract (join files')).graph).filter fun i =>
            i.category = category).map Issue.subject) := by
  have hfound := perm_found hfiles hplain
  have hnames : ((found (join files)).map Declaration.name).Perm
      ((found (join files')).map Declaration.name) := by
    have hperm := hfound.map Declaration.name
    rwa [List.map_map, List.map_map] at hperm
  have hnodup := names_nodup (fresh_of_unreported fun d hd => (hunreported d hd).1)
  have hagrees : (scan (join files)).Agrees (scan (join files')) :=
    agrees_of_perm hnames (perm_registered hfiles hplain) hregistered
  have hvalues : ((scan (join files)).declarations.values.map Declaration.bare).Perm
      ((scan (join files')).declarations.values.map Declaration.bare) := by
    rwa [values_declarations hnodup, values_declarations (hnames.nodup_iff.1 hnodup)]
  obtain ⟨hschemas, hrelationships⟩ := Assembly.perm_graph hagrees hvalues
    (nodup_of_unshared fun d hd => (hunreported d hd).2)
  refine ⟨hschemas, hrelationships, ?_⟩
  intro threshold category hcategory
  rw [Issue.filter_detect_group, Issue.filter_detect_group]
  exact Issue.perm_subjects hschemas hrelationships threshold hcategory

/-- A schema with a field that refers to the other file. -/
def userFile : SourceFile where
  path := "user.js"
  content := "var User = Schema(\x7b home: Address \x7d);\n".toList

/-- A schema shown under a registered name. -/
def addressFile : SourceFile where
  path := "address.js"
  content := "var Address = Schema(\x7b \x7d);\nmodel('Place', Address)".toList

theorem extract_join_perm_swapped :
    (∀ f ∈ [userFile, addressFile], f.IsPlain) ∧
      (extract (join [userFile, addressFile])).graph.relationships =
        [.embedded "User" "Place" "home" false] ∧
      (extract (join [userFile, addressFile])).graph.schemas.Perm
        (extract (join [addressFile, userFile])).graph.schemas := by
  have huser : userFile.IsPlain :=
    ⟨by decide, by decide, by decide +kernel, by decide +kernel⟩
  have haddress : addressFile.IsPlain :=
    ⟨by decide, by decide, by decide +kernel, by decide +kernel⟩
  have hplain : ∀ f ∈ [userFile, addressFile], f.IsPlain := by
    intro f hf
    rcases List.mem_pair.1 hf with rfl | rfl
    · exact huser
    · exact haddress
  refine ⟨hplain, by decide +kernel, ?_⟩
  exact (extract_join_perm (List.Perm.swap addressFile userFile []) hplain (by decide +kernel)
    (by decide +kernel)).1

end SourceFile

end SchemaAtlas
