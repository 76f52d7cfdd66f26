/-
Catalogs that tell the same things. References and display names ask a
catalog only whether it declares an identifier and under which name a
schema is shown. If no identifier is declared or registered twice, the
answers depend on what was found in the input, not on where or in which
order: nothing is overwritten.

- `Catalog.names_nodup`: without a report of it, nothing is redeclared.
- `Catalog.Agrees`, `Catalog.agrees_of_perm`: inputs in which the same
  is found have agreeing catalogs.
- `Reference.read?_congr`: agreeing catalogs give the same references.
-/
import SchemaAtlas.Proofs.Catalog.Merge
import SchemaAtlas.Proofs.Catalog.Order
import SchemaAtlas.Reference

namespace SchemaAtlas

namespace Catalog

-- ==================================================== redeclarations

/-- None of the warnings is about a redeclaration. -/
def Fresh (c : Catalog) : Prop :=
  ∀ w ∈ c.warnings, w.code ≠ .redeclaration

/-- A name declared without a report of it was new. -/
theorem Fresh.of_declare {c : Catalog} {d : Declaration} (h : (c.declare d).Fresh) :
    c.Fresh ∧ d.name ∉ c.declarations.keys := by
  unfold declare at h
  cases hget : c.declarations.get? d.name with
  | none =>
      rw [hget] at h
      exact ⟨h, OrderedMap.get?_eq_none_iff.1 hget⟩
  | some earlier =>
      rw [hget] at h
      exact absurd rfl (h (.redeclared d.name d.span earlier.span) (by simp [warn]))

theorem Fresh.of_foldl_declare {c : Catalog} {ds : List Declaration}
    (h : (ds.foldl declare c).Fresh) :
    c.Fresh ∧ (c.declarations.keys ++ ds.map Declaration.name).Nodup := by
  induction ds generalizing c with
  | nil =>
      refine ⟨h, ?_⟩
      rw [List.map_nil, List.append_nil]
      exact c.declarations.nodup_keys
  | cons d ds ih =>
      obtain ⟨hd, hnodup⟩ := ih h
      obtain ⟨hc, hnew⟩ := hd.of_declare
      rw [declarations_declare, OrderedMap.keys_insert, if_neg hnew, List.append_assoc] at hnodup
      exact ⟨hc, hnodup⟩

theorem Fresh.of_add {c : Catalog} {s : UnitScan} (h : (c.add s).Fresh) :
    c.Fresh ∧ (c.declarations.keys ++ s.declarations.map Declaration.name).Nodup := by
  let warned : Catalog := { c with warnings := c.warnings ++ s.warnings }
  have hdeclared : (s.declarations.foldl declare warned).Fresh := by
    intro w hw
    apply h w
    rwa [add_eq, warnings_foldl_register]
  obtain ⟨hwarned, hnodup⟩ := hdeclared.of_foldl_declare
  exact ⟨fun w hw => hwarned w (List.mem_append_left _ hw), hnodup⟩

theorem Fresh.of_foldl_add {c : Catalog} {us : List SourceUnit}
    (h : (us.foldl (fun c u => c.add u.scan) c).Fresh) :
    c.Fresh ∧ (c.declarations.keys ++
      (us.flatMap fun u => u.scan.declarations).map Declaration.name).Nodup := by
  induction us generalizing c with
  | nil =>
      refine ⟨h, ?_⟩
      rw [List.flatMap_nil, List.map_nil, List.append_nil]
      exact c.declarations.nodup_keys
  | cons u us ih =>
      obtain ⟨hu, hnodup⟩ := ih h
      obtain ⟨hc, hnew⟩ := hu.of_add
      have hentries : (c.add u.scan).declarations.entries =
          c.declarations.entries ++ u.scan.declarations.map fun d => (d.name, d) := by
        rw [declarations_add]
        exact OrderedMap.entries_foldl_insert Declaration.name id hnew
      have hkeys : (c.add u.scan).declarations.keys =
          c.declarations.keys ++ u.scan.declarations.map Declaration.name := by
        rw [OrderedMap.keys, hentries, List.map_append, List.map_map]
        rfl
      rw [hkeys, List.append_assoc, ← List.map_append] at hnodup
      exact ⟨hc, hnodup⟩

/-- Unless a redeclaration is reported, no identifier is declared
twice. -/
theorem names_nodup {input : Text} (h : (scan input).Fresh) :
    ((found input).map Declaration.name).Nodup := by
  have hunits : (ofUnits (SourceUnit.split input)).Fresh :=
    fun w hw => h w (List.mem_append_left _ hw)
  exact hunits.of_foldl_add.2

-- ==================================================== findings

/-- All registrations of an input, in the order of the source. -/
def registered (input : Text) : List Registration :=
  (SourceUnit.split input).flatMap fun u => u.scan.registrations

theorem registrations_scan (input : Text) :
    (scan input).registrations =
      (registered input).foldl (fun m r => m.insert r.schemaName r) .empty := by
  rw [registered, List.foldl_flatMap]
  show (ofUnits (SourceUnit.split input)).registrations = _
  exact (List.foldl_hom registrations fun c u => (registrations_add c u.scan).symm).symm

section

variable {input : Text} (h : ∀ l ∈ input.lines, SourceUnit.markerName? l = none)
include h

theorem found_unmarked : found input = (UnitScan.of none input).declarations :=
  SourceUnit.flatMap_scan_unmarked h rfl

theorem registered_unmarked : registered input = (UnitScan.of none input).registrations :=
  SourceUnit.flatMap_scan_unmarked h rfl

end

section

variable {input : Text}

/-- Without redeclarations the catalog keeps every declaration. -/
theorem values_declarations (h : ((found input).map Declaration.name).Nodup) :
    (scan input).declarations.values = found input := by
  have hentries : (scan input).declarations.entries = (found input).map fun d => (d.name, d) := by
    rw [declarations_scan]
    exact OrderedMap.entries_foldl_insert Declaration.name id h
  rw [OrderedMap.values, hentries, List.map_map]
  exact List.map_id _

theorem declares_iff {name : String} :
    (scan input).declares name = true ↔ name ∈ (found input).map Declaration.name := by
  rw [declares, OrderedMap.contains_iff, declarations_scan]
  exact (OrderedMap.mem_keys_foldl_insert Declaration.name id).trans
    (or_iff_right List.not_mem_nil)

/-- Without repeated registrations each of them gives its name. -/
theorem registeredName_iff (h : ((registered input).map Registration.schemaName).Nodup)
    {name display : String} :
    ((scan input).registrations.get? name).map Registration.displayName = some display ↔
      (name, display) ∈ (registered input).map fun r => (r.schemaName, r.displayName) := by
  have hentries : (scan input).registrations.entries =
      (registered input).map fun r => (r.schemaName, r) := by
    rw [registrations_scan]
    exact OrderedMap.entries_foldl_insert Registration.schemaName id h
  rw [Option.map_eq_some_iff, List.mem_map]
  constructor
  · rintro ⟨r, hget, hdisplay⟩
    rw [OrderedMap.get?_eq_some_iff, hentries] at hget
    obtain ⟨r', hr', heq⟩ := List.mem_map.1 hget
    obtain ⟨hname, rfl⟩ := Prod.mk.inj heq
    exact ⟨r', hr', Prod.ext hname hdisplay⟩
  · rintro ⟨r, hr, heq⟩
    obtain ⟨rfl, hdisplay⟩ := Prod.mk.inj heq
    refine ⟨r, ?_, hdisplay⟩
    rw [OrderedMap.get?_eq_some_iff, hentries]
    exact List.mem_map_of_mem hr

end

-- ==================================================== agreement

/-- The catalogs declare the same identifiers and show schemas under the
same names. -/
structure Agrees (c c' : Catalog) : Prop where
  declares_eq : ∀ name, c.declares name = c'.declares name
  displayName_eq : ∀ name, c.displayName name = c'.displayName name

protected theorem Agrees.refl (c : Catalog) : c.Agrees c :=
  ⟨fun _ => rfl, fun _ => rfl⟩

theorem displayName_eq_getD (c : Catalog) (name : String) :
    c.displayName name =
      ((c.registrations.get? name).map Registration.displayName).getD (stem name) := by
  unfold displayName
  cases c.registrations.get? name <;> rfl

/-- Inputs in which the same is found, nothing twice, have agreeing
catalogs. -/
theorem agrees_of_perm {input input' : Text}
    (hnames : ((found input).map Declaration.name).Perm ((found input').map Declaration.name))
    (hregistered : ((registered input).map fun r => (r.schemaName, r.displayName)).Perm
      ((registered input').map fun r => (r.schemaName, r.displayName)))
    (hnodup : ((registered input).map Registration.schemaName).Nodup) :
    (scan input).Agrees (scan input') := by
  have hnodup' : ((registered input').map Registration.schemaName).Nodup := by
    have hperm := hregistered.map Prod.fst
    rw [List.map_map, List.map_map] at hperm
    exact hperm.nodup_iff.1 hnodup
  constructor
  · intro name
    rw [Bool.eq_iff_iff, declares_iff, declares_iff]
    exact hnames.mem_iff
  · intro name
    rw [displayName_eq_getD, displayName_eq_getD]
    congr 1
    apply Option.ext
    intro display
    rw [registeredName_iff hnodup, registeredName_iff hnodup']
    exact hregistered.mem_iff

end Catalog

-- ==================================================== references

namespace Reference

variable {c c' : Catalog} (h : c.Agrees c') (schema : String)
include h

theorem embeddedAt?_congr (brackets : Nat) (before : Option PlacedToken) (t : PlacedToken)
    (behind : List PlacedToken) :
    embeddedAt? schema c brackets before t behind =
      embeddedAt? schema c' brackets before t behind := by
  unfold embeddedAt?
  simp only [h.declares_eq, h.displayName_eq]

theorem embedded?_congr (brackets : Nat) (before : Option PlacedToken) (ts : List PlacedToken) :
    embedded? schema c brackets before ts = embedded? schema c' brackets before ts := by
  induction ts generalizing brackets before with
  | nil => rfl
  | cons t ts ih => rw [embedded?, embedded?, embeddedAt?_congr h, ih]

/-- Agreeing catalogs give the same references. -/
theorem read?_congr (ts : List PlacedToken) : read? schema c ts = read? schema c' ts := by
  rw [read?, read?, embedded?_congr h]

end Reference

end SchemaAtlas
