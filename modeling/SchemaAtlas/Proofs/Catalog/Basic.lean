/-
What additions do to a catalog. Declarations and registrations are
written one after the other into their own map and leave the other map
alone; only a declaration of a name that was declared before adds a
warning.

- `declarations_add`, `registrations_add`: the maps after a unit.
- `warnings_foldl_declare`: new names are declared without a warning.
- `exists_declaration`: a declared name is the name of a declaration.
-/
import SchemaAtlas.Catalog.Scan
import SchemaAtlas.Proofs.OrderedMap

namespace SchemaAtlas

namespace Catalog

variable (c : Catalog) (ds : List Declaration) (rs : List Registration)

-- ==================================================== declarations

@[simp] theorem declarations_declare (d : Declaration) :
    (c.declare d).declarations = c.declarations.insert d.name d := by
  unfold declare
  split <;> rfl

@[simp] theorem registrations_declare (d : Declaration) :
    (c.declare d).registrations = c.registrations := by
  unfold declare
  split <;> rfl

theorem declarations_foldl_declare :
    (ds.foldl declare c).declarations =
      ds.foldl (fun m d => m.insert d.name d) c.declarations :=
  (List.foldl_hom declarations fun c d => (declarations_declare c d).symm).symm

theorem registrations_foldl_declare :
    (ds.foldl declare c).registrations = c.registrations :=
  List.foldlRecOn (motive := fun c' => c'.registrations = c.registrations) ds declare rfl
    fun c' h d _ => (registrations_declare c' d).trans h

/-- New names are declared without a warning. -/
theorem warnings_foldl_declare
    (h : (c.declarations.keys ++ ds.map Declaration.name).Nodup) :
    (ds.foldl declare c).warnings = c.warnings := by
  induction ds generalizing c with
  | nil => rfl
  | cons d ds ih =>
      have hd : d.name ∉ c.declarations.keys := OrderedMap.not_mem_keys_of_nodup h
      have hwarn : (c.declare d).warnings = c.warnings := by
        unfold declare
        rw [OrderedMap.get?_eq_none_iff.2 hd]
      have hds : ((c.declare d).declarations.keys ++ ds.map Declaration.name).Nodup := by
        rw [declarations_declare]
        exact OrderedMap.nodup_keys_insert h d
      rw [List.foldl_cons, ih (c.declare d) hds, hwarn]

-- ==================================================== registrations

@[simp] theorem declarations_register (r : Registration) :
    (c.register r).declarations = c.declarations := rfl

@[simp] theorem registrations_register (r : Registration) :
    (c.register r).registrations = c.registrations.insert r.schemaName r := rfl

@[simp] theorem warnings_register (r : Registration) : (c.register r).warnings = c.warnings := rfl

theorem declarations_foldl_register :
    (rs.foldl register c).declarations = c.declarations :=
  List.foldlRecOn (motive := fun c' => c'.declarations = c.declarations) rs register rfl
    fun c' h r _ => (declarations_register c' r).trans h

theorem registrations_foldl_register :
    (rs.foldl register c).registrations =
      rs.foldl (fun m r => m.insert r.schemaName r) c.registrations :=
  (List.foldl_hom registrations fun c r => (registrations_register c r).symm).symm

theorem warnings_foldl_register : (rs.foldl register c).warnings = c.warnings :=
  List.foldlRecOn (motive := fun c' => c'.warnings = c.warnings) rs register rfl
    fun c' h r _ => (warnings_register c' r).trans h

-- ==================================================== units

variable (s : UnitScan)

/-- A unit's declarations are written in their order. -/
theorem declarations_add :
    (c.add s).declarations =
      s.declarations.foldl (fun m d => m.insert d.name d) c.declarations := by
  unfold add
  rw [declarations_foldl_register, declarations_foldl_declare]

/-- A unit's registrations are written in their order. -/
theorem registrations_add :
    (c.add s).registrations =
      s.registrations.foldl (fun m r => m.insert r.schemaName r) c.registrations := by
  unfold add
  rw [registrations_foldl_register, registrations_foldl_declare]

-- ==================================================== inputs

/-- Every declaration is filed under its own name. -/
def FiledByName (c : Catalog) : Prop :=
  ∀ e ∈ c.declarations.entries, e.2.name = e.1

variable {c} in
theorem FiledByName.add (h : c.FiledByName) : (c.add s).FiledByName := by
  unfold FiledByName
  rw [declarations_add]
  exact OrderedMap.forall_entries_foldl_insert Declaration.name id h fun _ _ => rfl

theorem filedByName_scan (input : Text) : (scan input).FiledByName := by
  have hempty : FiledByName empty := List.forall_mem_nil _
  exact List.foldlRecOn (motive := FiledByName) (SourceUnit.split input) _ hempty
    fun _ h u _ => h.add u.scan

/-- A declared name is the name of a declaration. -/
theorem exists_declaration {input : Text} {name : String}
    (h : (scan input).declares name = true) :
    ∃ d ∈ (scan input).declarations.values, d.name = name := by
  obtain ⟨e, he, rfl⟩ := List.mem_map.1 (OrderedMap.contains_iff.1 h)
  exact ⟨e.2, List.mem_map_of_mem he, filedByName_scan input e he⟩

end Catalog

end SchemaAtlas
