/-
Where settings come from, and why they do not come. The search ends at
one file at most; what that file gives, or does not give, decides. A
file named that is not there ends the search as well as one that is, and
no file is passed over because it cannot be used.

- `Config.FoundAt`: where the search ends.
- `Config.GivenBy`, `Config.RefusedBy`: what a file gives.
- `Config.Applies`: the settings of a run.
- `Config.load_eq_ok_iff`, `Config.load_eq_error_iff`: settings loaded,
  and not loaded.
-/
import SchemaAtlas.CommandLine.Configuration
import SchemaAtlas.Proofs.Analysis
import SchemaAtlas.Proofs.FileTree

namespace SchemaAtlas

namespace Config

variable {read : ConfigReader} {readColor : ColorReader} {tree : FileTree}
  {chosen system : Option String} {path : String} {c : Config} {f : ConfigurationFault}

-- ==================================================== the search

/-- The search for settings ends at a file. -/
inductive FoundAt (tree : FileTree) (chosen system : Option String) : String → Prop
  /-- A file named ends the search, be it there or not. -/
  | named {path : String} (hchosen : chosen = some path) : FoundAt tree chosen system path
  /-- The project's file comes next, if it is there. -/
  | project (hchosen : chosen = none) (hthere : tree.exists? localFile = true) :
      FoundAt tree chosen system localFile
  /-- The system's file comes last, if there is one. -/
  | platform {path : String} (hchosen : chosen = none) (hmissing : tree.exists? localFile = false)
      (hsystem : system = some path) (hthere : tree.exists? path = true) :
      FoundAt tree chosen system path

theorem file?_eq_some_iff :
    file? tree chosen system = some path ↔ FoundAt tree chosen system path := by
  constructor
  · intro h
    cases chosen with
    | some named =>
        cases h
        exact .named rfl
    | none =>
        unfold file? at h
        rw [List.find?_cons] at h
        cases hlocal : tree.exists? localFile with
        | true =>
            rw [hlocal] at h
            cases h
            exact .project rfl hlocal
        | false =>
            rw [hlocal] at h
            have hsystem := Option.mem_toList.1 (List.mem_of_find?_eq_some h)
            exact .platform rfl hlocal hsystem (List.find?_some h)
  · intro h
    cases h with
    | named hchosen => rw [hchosen]; rfl
    | project hchosen hthere => simp [file?, hchosen, hthere]
    | platform hchosen hmissing hsystem hthere =>
        simp [file?, hchosen, hmissing, hsystem, hthere]

/-- The search ends at one file at most. -/
theorem FoundAt.unique {path' : String} (h : FoundAt tree chosen system path)
    (h' : FoundAt tree chosen system path') : path = path' := by
  have heq := (file?_eq_some_iff.2 h).symm.trans (file?_eq_some_iff.2 h')
  exact Option.some.inj heq

-- ==================================================== a file

/-- A file gives settings: it holds a text, the text is read as
settings, and they pass the check. -/
def GivenBy (read : ConfigReader) (readColor : ColorReader) (tree : FileTree) (path : String)
    (c : Config) : Prop :=
  ∃ s, tree.readText path = .ok s ∧ read s.toList = some c ∧ c.validate readColor = .ok ()

/-- A file gives no settings. -/
inductive RefusedBy (read : ConfigReader) (readColor : ColorReader) (tree : FileTree)
    (path : String) : ConfigurationFault → Prop
  | missing (hmissing : tree.exists? path = false) :
      RefusedBy read readColor tree path (.missing path)
  | unreadable {f : IoFault} (hthere : tree.exists? path = true)
      (hread : tree.readText path = .error f) : RefusedBy read readColor tree path (.unreadable f)
  | malformed {s : String} (htext : tree.readText path = .ok s) (hread : read s.toList = none) :
      RefusedBy read readColor tree path .malformed
  | unusable {s : String} {c : Config} {f : ConfigFault} (htext : tree.readText path = .ok s)
      (hread : read s.toList = some c) (hcheck : c.validate readColor = .error f) :
      RefusedBy read readColor tree path (.unusable f)

theorem loadFile_eq_ok_iff :
    loadFile read readColor tree path = .ok c ↔ GivenBy read readColor tree path c := by
  unfold loadFile
  rw [Except.bind_eq_ok_iff]
  constructor
  · rintro ⟨s, htext, h⟩
    cases hread : read s.toList with
    | none => rw [hread] at h; cases h
    | some c' =>
        rw [hread] at h
        obtain ⟨⟨⟩, hcheck, h⟩ := Except.bind_eq_ok_iff.1 h
        cases h
        exact ⟨s, Except.mapError_eq_ok_iff.1 htext, hread, Except.mapError_eq_ok_iff.1 hcheck⟩
  · rintro ⟨s, htext, hread, hcheck⟩
    refine ⟨s, Except.mapError_eq_ok_iff.2 htext, ?_⟩
    rw [hread]
    exact Except.bind_eq_ok_iff.2 ⟨(), Except.mapError_eq_ok_iff.2 hcheck, rfl⟩

theorem loadFile_eq_error_iff (hthere : tree.exists? path = true) :
    loadFile read readColor tree path = .error f ↔ RefusedBy read readColor tree path f := by
  unfold loadFile
  rw [Except.bind_eq_error_iff]
  constructor
  · rintro (h | ⟨s, htext, h⟩)
    · obtain ⟨fault, hfault, rfl⟩ := Except.mapError_eq_error_iff.1 h
      exact .unreadable hthere hfault
    · have htext := Except.mapError_eq_ok_iff.1 htext
      cases hread : read s.toList with
      | none =>
          rw [hread] at h
          cases h
          exact .malformed htext hread
      | some c =>
          rw [hread] at h
          rcases Except.bind_eq_error_iff.1 h with h | ⟨_, -, h⟩
          · obtain ⟨fault, hfault, rfl⟩ := Except.mapError_eq_error_iff.1 h
            exact .unusable htext hread hfault
          · cases h
  · intro h
    cases h with
    | missing hmissing => rw [hthere] at hmissing; cases hmissing
    | unreadable _ hread => exact Or.inl (Except.mapError_eq_error_iff.2 ⟨_, hread, rfl⟩)
    | malformed htext hread =>
        refine Or.inr ⟨_, Except.mapError_eq_ok_iff.2 htext, ?_⟩
        rw [hread]
        rfl
    | unusable htext hread hcheck =>
        refine Or.inr ⟨_, Except.mapError_eq_ok_iff.2 htext, ?_⟩
        rw [hread]
        exact Except.bind_eq_error_iff.2
          (Or.inl (Except.mapError_eq_error_iff.2 ⟨_, hcheck, rfl⟩))

/-- A file gives settings or is at fault. -/
theorem givenBy_or_refusedBy (read : ConfigReader) (readColor : ColorReader) (tree : FileTree)
    (path : String) :
    (∃ c, GivenBy read readColor tree path c) ∨
      ∃ f, RefusedBy read readColor tree path f := by
  by_cases hthere : tree.exists? path = true
  · cases hload : loadFile read readColor tree path with
    | ok c => exact Or.inl ⟨c, loadFile_eq_ok_iff.1 hload⟩
    | error f => exact Or.inr ⟨f, (loadFile_eq_error_iff hthere).1 hload⟩
  · exact Or.inr ⟨_, .missing (by simpa using hthere)⟩

-- ==================================================== the settings

theorem load_of_found (h : FoundAt tree chosen system path) :
    load read readColor tree chosen system =
      if tree.exists? path then loadFile read readColor tree path else .error (.missing path) := by
  unfold load
  rw [file?_eq_some_iff.2 h]

theorem load_of_not_found (h : ∀ path, ¬ FoundAt tree chosen system path) :
    load read readColor tree chosen system = .ok {} := by
  unfold load
  cases hfile : file? tree chosen system with
  | none => rfl
  | some path => exact absurd (file?_eq_some_iff.1 hfile) (h path)

/-- Settings are loaded from the file where the search ended if that
file gives them. -/
theorem load_eq_ok_iff_givenBy (hfound : FoundAt tree chosen system path) :
    load read readColor tree chosen system = .ok c ↔ GivenBy read readColor tree path c := by
  rw [load_of_found hfound, ← loadFile_eq_ok_iff]
  by_cases hthere : tree.exists? path = true
  · rw [if_pos hthere]
  · rw [if_neg hthere]
    constructor
    · intro h
      cases h
    · intro h
      obtain ⟨s, htext, -⟩ := loadFile_eq_ok_iff.1 h
      exact absurd (FileTree.exists_of_readText htext) hthere

/-- The fault of the file where the search ended is the fault of the
search. -/
theorem load_eq_error_iff_refusedBy (hfound : FoundAt tree chosen system path) :
    load read readColor tree chosen system = .error f ↔ RefusedBy read readColor tree path f := by
  rw [load_of_found hfound]
  by_cases hthere : tree.exists? path = true
  · rw [if_pos hthere, loadFile_eq_error_iff hthere]
  · rw [if_neg hthere]
    constructor
    · intro h
      cases h
      exact .missing (by simpa using hthere)
    · intro h
      cases h with
      | missing => rfl
      | unreadable hexists => exact absurd hexists hthere
      | malformed htext => exact absurd (FileTree.exists_of_readText htext) hthere
      | unusable htext => exact absurd (FileTree.exists_of_readText htext) hthere

/-- The settings that apply to a run: those of the file where the search
ended, or the defaults if it ended at none. -/
inductive Applies (read : ConfigReader) (readColor : ColorReader) (tree : FileTree)
    (chosen system : Option String) : Config → Prop
  | byFile {path : String} {c : Config} (hfound : FoundAt tree chosen system path)
      (hgiven : GivenBy read readColor tree path c) : Applies read readColor tree chosen system c
  | byDefault (hnowhere : ∀ path, ¬ FoundAt tree chosen system path) :
      Applies read readColor tree chosen system {}

theorem load_eq_ok_iff :
    load read readColor tree chosen system = .ok c ↔
      Applies read readColor tree chosen system c := by
  by_cases hfound : ∃ path, FoundAt tree chosen system path
  · obtain ⟨path, hfound⟩ := hfound
    rw [load_eq_ok_iff_givenBy hfound]
    constructor
    · exact .byFile hfound
    · intro h
      cases h with
      | byFile hfound' hgiven =>
          rw [hfound.unique hfound']
          exact hgiven
      | byDefault hnowhere => exact absurd hfound (hnowhere path)
  · have hnowhere := not_exists.1 hfound
    rw [load_of_not_found hnowhere]
    constructor
    · intro h
      cases h
      exact .byDefault hnowhere
    · intro h
      cases h with
      | byFile hfound' => exact absurd hfound' (hnowhere _)
      | byDefault => rfl

/-- No settings are loaded exactly if the search ended at a file that
gives none. -/
theorem load_eq_error_iff :
    load read readColor tree chosen system = .error f ↔
      ∃ path, FoundAt tree chosen system path ∧ RefusedBy read readColor tree path f := by
  constructor
  · intro h
    by_cases hfound : ∃ path, FoundAt tree chosen system path
    · obtain ⟨path, hfound⟩ := hfound
      exact ⟨path, hfound, (load_eq_error_iff_refusedBy hfound).1 h⟩
    · rw [load_of_not_found (not_exists.1 hfound)] at h
      cases h
  · rintro ⟨path, hfound, h⟩
    exact (load_eq_error_iff_refusedBy hfound).2 h

/-- A file named that is not there is an error, though the project has
one. -/
example (read : ConfigReader) (readColor : ColorReader) :
    load read readColor ((FileTree.empty ["work"]).withFile localFile .empty) (some "a.toml") none =
      .error (.missing "a.toml") := rfl

/-- Settings that apply pass the check: those of a file have passed it
already, and of the defaults the reader knows the colors. -/
theorem Applies.validate (hdefaults : ({} : EdgeColors).KnownTo readColor)
    (h : Applies read readColor tree chosen system c) : c.validate readColor = .ok () := by
  cases h with
  | byFile _ hgiven =>
      obtain ⟨s, -, -, hcheck⟩ := hgiven
      exact hcheck
  | byDefault => exact validate_default hdefaults

end Config

end SchemaAtlas
