/-
The laws of writing. A file is written into a directory that is there
and is no directory itself; so a write makes no directory and takes none
away, and every path leads afterwards where it led before. What is
written is found under the path it was written to, and under the other
paths that lead to the same place; all other paths lead to what they led
to.

- `FileTree.isDirectory_insert`, `FileTree.resolve_insert`: a file more.
- `FileTree.get?_write`, `FileTree.isDirectory_write`: the places after a
  write; `FileTree.contents?_write`: what the paths lead to.
-/
import SchemaAtlas.FileTree
import SchemaAtlas.Proofs.Failure

namespace SchemaAtlas

namespace FileTree

variable {t u : FileTree} {l k : Location} {path : String} {bytes : ByteArray}

-- ==================================================== directories

theorem isDirectory_iff :
    t.isDirectory l = true ↔
      l = [] ∨ l <+: t.workingDirectory ∨ (∃ d ∈ t.directories, l <+: d) ∨
        ∃ f ∈ t.files.keys, l <+: f ∧ l ≠ f := by
  simp [isDirectory, or_assoc]

/-- What a directory stands in is a directory. -/
theorem isDirectory_of_below (hkl : k <+: l) (h : t.isDirectory l = true) :
    t.isDirectory k = true := by
  rcases isDirectory_iff.1 h with rfl | hl | ⟨d, hd, hl⟩ | ⟨f, hf, hl, hne⟩
  · exact isDirectory_iff.2 (Or.inl (List.prefix_nil.1 hkl))
  · exact isDirectory_iff.2 (Or.inr (Or.inl (hkl.trans hl)))
  · exact isDirectory_iff.2 (Or.inr (Or.inr (Or.inl ⟨d, hd, hkl.trans hl⟩)))
  · refine isDirectory_iff.2 (Or.inr (Or.inr (Or.inr ⟨f, hf, hkl.trans hl, ?_⟩)))
    -- otherwise all three are of one length
    rintro rfl
    exact hne (hl.eq_of_length (Nat.le_antisymm hl.length_le hkl.length_le))

/-- What lies in front of a location and is not the location lies in
front of its directory. -/
theorem prefix_dropLast (h : k <+: l) (hne : k ≠ l) : k <+: l.dropLast := by
  have hlt : k.length < l.length :=
    Nat.lt_of_le_of_ne h.length_le fun heq => hne (h.eq_of_length heq)
  refine List.prefix_of_prefix_length_le h (List.dropLast_prefix l) ?_
  rw [List.length_dropLast]
  omega

/-- A file in a directory makes no directory and takes none away. -/
theorem isDirectory_insert (hdir : t.isDirectory l.dropLast = true) :
    ({ t with files := t.files.insert l bytes } : FileTree).isDirectory k = t.isDirectory k := by
  rw [Bool.eq_iff_iff, isDirectory_iff, isDirectory_iff]
  simp only [OrderedMap.mem_keys_insert, or_and_right, exists_or, exists_eq_left]
  constructor
  · rintro (hk | hk | hk | ⟨hk, hne⟩ | hk)
    · exact Or.inl hk
    · exact Or.inr (Or.inl hk)
    · exact Or.inr (Or.inr (Or.inl hk))
    · exact isDirectory_iff.1 (isDirectory_of_below (prefix_dropLast hk hne) hdir)
    · exact Or.inr (Or.inr (Or.inr hk))
  · rintro (hk | hk | hk | hk)
    · exact Or.inl hk
    · exact Or.inr (Or.inl hk)
    · exact Or.inr (Or.inr (Or.inl hk))
    · exact Or.inr (Or.inr (Or.inr (Or.inr hk)))

-- ==================================================== paths

/-- A name is followed from directories only. -/
theorem isDirectory_of_follow {name : Text} (h : t.follow l name = .ok k) :
    t.isDirectory l = true := by
  unfold follow at h
  split_ifs at h with hfile hdir
  all_goals exact by simpa using hdir

/-- The failures to follow a name may change, where a file stands now
that did not stand there; where a name leads does not. -/
theorem follow_insert (hno : t.isDirectory l = false) (hdir : t.isDirectory l.dropLast = true)
    {here : Location} {name : Text} :
    ({ t with files := t.files.insert l bytes } : FileTree).follow here name = .ok k ↔
      t.follow here name = .ok k := by
  by_cases hhere : t.isDirectory here = true
  · have hne : here ≠ l := by
      rintro rfl
      rw [hhere] at hno
      cases hno
    have hcontains : (t.files.insert l bytes).contains here = t.files.contains here := by
      rw [Bool.eq_iff_iff, OrderedMap.contains_iff, OrderedMap.contains_iff,
        OrderedMap.mem_keys_insert, or_iff_right hne]
    unfold follow
    rw [isDirectory_insert hdir, hcontains]
  · constructor
    · intro h
      refine absurd (isDirectory_of_follow h) ?_
      rw [isDirectory_insert hdir]
      exact hhere
    · exact fun h => absurd (isDirectory_of_follow h) hhere

/-- A path leads where it led. -/
theorem resolve_insert (hno : t.isDirectory l = false) (hdir : t.isDirectory l.dropLast = true)
    {p : Text} :
    ({ t with files := t.files.insert l bytes } : FileTree).resolve p = .ok k ↔
      t.resolve p = .ok k := by
  unfold resolve
  split_ifs
  · rfl
  · rfl
  · rfl
  · exact Except.foldlM_eq_ok_congr fun _ _ _ => follow_insert hno hdir
  · exact Except.foldlM_eq_ok_congr fun _ _ _ => follow_insert hno hdir

-- ==================================================== reading

/-- A file that can be read is there. -/
theorem exists_of_readText {s : String} (h : t.readText path = .ok s) : t.exists? path = true := by
  obtain ⟨bytes, hbytes, -⟩ := Except.bind_eq_ok_iff.1 h
  obtain ⟨l, hl, hat⟩ := Except.bind_eq_ok_iff.1 hbytes
  unfold exists?
  rw [hl]
  unfold bytesAt at hat
  split_ifs at hat with hthere
  exact hthere

-- ==================================================== places

theorem writable_eq_ok_iff :
    t.writable k = .ok l ↔
      k = l ∧ t.isDirectory l = false ∧ t.isDirectory l.dropLast = true ∧
        t.refusal .writing l = none := by
  unfold writable
  constructor
  · intro h
    split_ifs at h with hno hdir
    cases hrefusal : t.refusal .writing k with
    | some f => rw [hrefusal] at h; cases h
    | none =>
        rw [hrefusal] at h
        cases h
        exact ⟨rfl, by simpa using hno, by simpa using hdir, hrefusal⟩
  · rintro ⟨rfl, hno, hdir, hrefusal⟩
    simp [hno, hdir, hrefusal]

/-- A file can be written where its path leads, unless the path ends
with a slash: to no directory, but into one, and not against the
system. -/
theorem target_eq_ok_iff {p : Text} :
    t.target p = .ok l ↔
      p.getLast? ≠ some '/' ∧ t.resolve p = .ok l ∧ t.isDirectory l = false ∧
        t.isDirectory l.dropLast = true ∧ t.refusal .writing l = none := by
  unfold target
  by_cases hslash : p.getLast? = some '/'
  · rw [if_pos hslash]
    constructor
    · intro h
      dsimp only at h
      split_ifs at h
      obtain ⟨-, -, h⟩ := Except.bind_eq_ok_iff.1 h
      cases h
    · exact fun h => absurd hslash h.1
  · rw [if_neg hslash, Except.bind_eq_ok_iff, and_iff_right hslash]
    constructor
    · rintro ⟨k, hk, h⟩
      obtain ⟨rfl, h⟩ := writable_eq_ok_iff.1 h
      exact ⟨hk, h⟩
    · rintro ⟨hl, h⟩
      exact ⟨l, hl, writable_eq_ok_iff.2 ⟨rfl, h⟩⟩

theorem write_eq_ok_iff :
    t.write path bytes = .ok u ↔
      ∃ l, t.target path.toList = .ok l ∧ u = { t with files := t.files.insert l bytes } := by
  unfold write
  rw [Except.bind_eq_ok_iff]
  constructor
  · rintro ⟨l, hl, h⟩
    cases h
    exact ⟨l, hl, rfl⟩
  · rintro ⟨l, hl, rfl⟩
    exact ⟨l, hl, rfl⟩

/-- A write fails as its place does, whatever is to be written. -/
theorem write_eq_error_iff {f : IoFault} :
    t.write path bytes = .error f ↔ t.target path.toList = .error f := by
  unfold write
  cases t.target path.toList <;> simp

-- ==================================================== a write

/-- Writing changes one location at most, the one the path leads to. -/
theorem get?_write (h : t.write path bytes = .ok u) :
    ∃ l, t.target path.toList = .ok l ∧
      ∀ k, u.files.get? k = if l = k then some bytes else t.files.get? k := by
  obtain ⟨l, hl, rfl⟩ := write_eq_ok_iff.1 h
  exact ⟨l, hl, fun k => OrderedMap.get?_insert t.files l k bytes⟩

/-- No directory comes or goes with a write. -/
theorem isDirectory_write (h : t.write path bytes = .ok u) (k : Location) :
    u.isDirectory k = t.isDirectory k := by
  obtain ⟨l, hl, rfl⟩ := write_eq_ok_iff.1 h
  obtain ⟨-, -, -, hdir, -⟩ := target_eq_ok_iff.1 hl
  exact isDirectory_insert hdir

/-- After a write the paths that lead to its place lead to what was
written; the others lead to what they led to. -/
theorem contents?_write (h : t.write path bytes = .ok u) :
    ∃ l, t.target path.toList = .ok l ∧
      ∀ p, u.contents? p =
        if t.resolve p.toList = .ok l then some bytes else t.contents? p := by
  obtain ⟨l, hl, rfl⟩ := write_eq_ok_iff.1 h
  obtain ⟨-, -, hno, hdir, -⟩ := target_eq_ok_iff.1 hl
  refine ⟨l, hl, fun p => ?_⟩
  cases hp : t.resolve p.toList with
  | ok k =>
      unfold contents?
      rw [hp, (resolve_insert hno hdir).2 hp]
      simp only [OrderedMap.get?_insert, Except.ok.injEq, eq_comm]
  | error f =>
      have hnowhere : ∀ k, ({ t with files := t.files.insert l bytes } : FileTree).resolve
          p.toList ≠ .ok k := by
        intro k hk
        rw [(resolve_insert hno hdir).1 hk] at hp
        cases hp
      unfold contents?
      rw [hp]
      split
      · next k hk => exact absurd hk (hnowhere k)
      · rfl

end FileTree

end SchemaAtlas
