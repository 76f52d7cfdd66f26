/-
Files joined and taken apart again. Each file begins with its marker
line and ends with a line break, so its lines are also lines of the
joined text; among them only the first is a marker line, and it gives
the path back. What comes out is one unit for each file, at the place
where its content begins.

- `SourceUnit.markerName?_markerLine`: the path, read off a marker line.
- `SourceFile.split_join`: the units of joined files.
-/
import Mathlib.Data.List.Infix
import SchemaAtlas.Proofs.SourceUnit
import SchemaAtlas.Proofs.Token.Trim

namespace SchemaAtlas

namespace Text

-- ==================================================== lines

theorem lines_eq_nil {t : Text} (h : lines t = []) : t = [] := by
  rw [← lines_flatten t, h]
  rfl

/-- A text that ends in a line break contributes its own lines. -/
theorem lines_append {s : Text} (h : s.getLast? = some '\n') (t : Text) :
    lines (s ++ t) = lines s ++ lines t := by
  induction s with
  | nil => cases h
  | cons c cs ih =>
      by_cases hcs : cs = []
      · subst hcs
        obtain rfl : c = '\n' := Option.some.inj h
        rfl
      · have hlast : cs.getLast? = some '\n' := by
          rwa [List.getLast?_cons, List.getLast?_eq_some_getLast hcs, Option.getD_some,
            ← List.getLast?_eq_some_getLast] at h
        obtain ⟨l, ls, hl⟩ := List.exists_cons_of_ne_nil (mt lines_eq_nil hcs)
        rw [List.cons_append, lines, lines, ih hlast, hl]
        split <;> rfl

/-- A line break behind a text is a line of its own or closes the last
line. -/
theorem lines_concat_break (t : Text) :
    lines (t ++ ['\n']) = lines t ++ [['\n']] ∨
      ∃ ls k, lines t = ls ++ [k] ∧ lines (t ++ ['\n']) = ls ++ [k ++ ['\n']] := by
  induction t with
  | nil => exact Or.inl rfl
  | cons c cs ih =>
      rw [List.cons_append, lines, lines]
      by_cases hc : c = '\n'
      · rw [if_pos hc, if_pos hc]
        rcases ih with h | ⟨ls, k, h, hbreak⟩
        · exact Or.inl (by rw [h, List.cons_append])
        · exact Or.inr ⟨[c] :: ls, k, by rw [h, List.cons_append], by rw [hbreak, List.cons_append]⟩
      · rw [if_neg hc, if_neg hc]
        rcases ih with h | ⟨ls, k, h, hbreak⟩
        · rw [h]
          cases lines cs with
          | nil => exact Or.inr ⟨[], [c], rfl, rfl⟩
          | cons l ls => exact Or.inl rfl
        · rw [h, hbreak]
          cases ls with
          | nil => exact Or.inr ⟨[], c :: k, rfl, rfl⟩
          | cons l ls => exact Or.inr ⟨(c :: l) :: ls, k, rfl, rfl⟩

-- ==================================================== trimming

/-- A line break at the end is trimmed. -/
theorem trimEnd_concat_break (t : Text) : trimEnd (t ++ ['\n']) = trimEnd t := by
  rw [trimEnd_append]
  exact if_pos rfl

theorem trimStart_concat_break (t : Text) :
    trimStart (t ++ ['\n']) = if t.isAllBlank then [] else trimStart t ++ ['\n'] := by
  rw [trimStart, List.dropWhile_append]
  by_cases h : t.isAllBlank = true
  · have hnil : t.dropWhile isBlank = [] := trimStart_eq_nil.2 h
    rw [if_pos h, hnil]
    rfl
  · have hne : ¬ (t.dropWhile isBlank).isEmpty = true := fun hempty =>
      h (trimStart_eq_nil.1 (List.isEmpty_iff.1 hempty))
    rw [if_neg h, if_neg hne]
    rfl

theorem trim_concat_break (t : Text) : trim (t ++ ['\n']) = trim t := by
  unfold trim
  rw [trimStart_concat_break]
  by_cases h : t.isAllBlank = true
  · rw [if_pos h, trimStart_eq_nil.2 h]
  · rw [if_neg h, trimEnd_concat_break]

end Text

namespace SourceUnit

-- ==================================================== marker lines

theorem markerName?_eq_some_iff {l n : Text} :
    markerName? l = some n ↔
      ∃ r, Text.trimStart l = marker ++ r ∧ Text.trim r = n ∧ n ≠ [] := by
  unfold markerName?
  constructor
  · intro h
    split at h
    · next r hr =>
        obtain ⟨hne, hn⟩ := Option.ite_none_left_eq_some.1 h
        cases hn
        exact ⟨r, (List.append_eq_of_isPrefixOf?_eq_some hr).symm, rfl, hne⟩
    · cases h
  · rintro ⟨r, hr, rfl, hne⟩
    have hbehind : marker.isPrefixOf? (Text.trimStart l) = some r :=
      List.isPrefixOf?_eq_some_iff_append_eq.2 hr.symm
    rw [hbehind]
    exact if_neg hne

/-- A line break does not make a marker line. -/
theorem markerName?_concat_break {l : Text} (h : markerName? l = none) :
    markerName? (l ++ ['\n']) = none := by
  cases hbreak : markerName? (l ++ ['\n']) with
  | none => rfl
  | some n =>
      obtain ⟨r, hr, hn, hne⟩ := markerName?_eq_some_iff.1 hbreak
      rw [Text.trimStart_concat_break] at hr
      by_cases hblank : l.isAllBlank = true
      · rw [if_pos hblank] at hr
        cases hr
      · rw [if_neg hblank] at hr
        rcases List.eq_nil_or_concat r with rfl | ⟨r', c, rfl⟩
        · exact absurd hn.symm hne
        · rw [List.concat_eq_append, ← List.append_assoc] at hr
          obtain ⟨hstart, hc⟩ := List.append_inj' hr rfl
          cases hc
          rw [List.concat_eq_append, Text.trim_concat_break] at hn
          have hmarker : markerName? l = some n := markerName?_eq_some_iff.2 ⟨r', hstart, hn, hne⟩
          rw [h] at hmarker
          cases hmarker

/-- Lines in front of the next marker line belong to the unit begun. -/
theorem splitLines_append (name : Option String) (start here : Nat) {ls : List Text}
    (h : ∀ l ∈ ls, markerName? l = none) (ms : List Text) :
    splitLines name start here (ls ++ ms) =
      let later := splitLines name start (here + Text.width ls.flatten) ms
      ({ later.1 with text := ls.flatten ++ later.1.text }, later.2) := by
  induction ls generalizing here with
  | nil => rfl
  | cons l ls ih =>
      have hl := h l List.mem_cons_self
      have hls := ih (here + l.width) fun k hk => h k (List.mem_cons_of_mem l hk)
      rw [List.cons_append, splitLines, hl]
      simp only
      rw [hls, List.flatten_cons, Text.width_append, Nat.add_assoc, List.append_assoc]

end SourceUnit

namespace SourceFile

-- ==================================================== joined files

/-- The path stands on a line of its own and has nothing to trim, and no
line of the content is a marker line. -/
structure IsPlain (f : SourceFile) : Prop where
  path_not_blank : Text.isAllBlank f.path.toList = false
  path_one_line : '\n' ∉ f.path.toList
  trim_path : Text.trim f.path.toList = f.path.toList
  unmarked : ∀ l ∈ f.content.lines, SourceUnit.markerName? l = none

/-- The line in front of the content. -/
def markerLine (f : SourceFile) : Text :=
  SourceUnit.marker ++ ' ' :: f.path.toList ++ ['\n']

/-- The units of joined files, the first marker line at byte `here`. -/
def unitsFrom (here : Nat) : List SourceFile → List SourceUnit
  | [] => []
  | f :: fs =>
      let start := here + f.markerLine.width
      ⟨some f.path, f.closedContent, start⟩ :: unitsFrom (start + f.closedContent.width) fs

theorem join_cons (f : SourceFile) (fs : List SourceFile) :
    join (f :: fs) = f.markerLine ++ (f.closedContent ++ join fs) := by
  simp [join, markerLine]

theorem getLast?_closedContent (f : SourceFile) : f.closedContent.getLast? = some '\n' := by
  unfold closedContent
  by_cases h : f.content.getLast? = some '\n'
  · rw [if_pos h, h]
  · rw [if_neg h, List.getLast?_concat]

theorem lines_join_cons {f : SourceFile} (h : '\n' ∉ f.path.toList) (fs : List SourceFile) :
    (join (f :: fs)).lines = f.markerLine :: (f.closedContent.lines ++ (join fs).lines) := by
  have hline : '\n' ∉ SourceUnit.marker ++ ' ' :: f.path.toList := by
    rw [List.mem_append, not_or]
    exact ⟨by decide, by simpa using h⟩
  rw [join_cons, markerLine, List.append_assoc, List.singleton_append, Text.lines_line hline,
    Text.lines_append f.getLast?_closedContent]

namespace IsPlain

variable {f : SourceFile} (h : f.IsPlain)
include h

/-- The path, read off the marker line. -/
theorem markerName?_markerLine :
    SourceUnit.markerName? f.markerLine = some f.path.toList := by
  have hstart : Text.trimStart f.markerLine =
      SourceUnit.marker ++ (' ' :: f.path.toList ++ ['\n']) := by
    rw [markerLine, List.append_assoc]
    rfl
  have htrim : Text.trim (' ' :: f.path.toList ++ ['\n']) = f.path.toList := by
    rw [Text.trim_concat_break]
    exact h.trim_path
  have hne : f.path.toList ≠ [] := by
    intro hnil
    have hblank := h.path_not_blank
    rw [hnil] at hblank
    cases hblank
  exact SourceUnit.markerName?_eq_some_iff.2 ⟨_, hstart, htrim, hne⟩

theorem unmarked_closedContent : ∀ l ∈ f.closedContent.lines, SourceUnit.markerName? l = none := by
  intro l hl
  unfold closedContent at hl
  split at hl
  · exact h.unmarked l hl
  · rcases Text.lines_concat_break f.content with hbreak | ⟨ls, k, hlines, hbreak⟩
    · rw [hbreak] at hl
      rcases List.mem_append.1 hl with hl | hl
      · exact h.unmarked l hl
      · rw [List.mem_singleton.1 hl]
        rfl
    · have hunmarked := h.unmarked
      rw [hlines] at hunmarked
      rw [hbreak] at hl
      rcases List.mem_append.1 hl with hl | hl
      · exact hunmarked l (List.mem_append_left _ hl)
      · rw [List.mem_singleton.1 hl]
        exact SourceUnit.markerName?_concat_break (hunmarked k (by simp))

end IsPlain

theorem splitLines_join {files : List SourceFile} (h : ∀ f ∈ files, f.IsPlain)
    (name : Option String) (start here : Nat) :
    SourceUnit.splitLines name start here (join files).lines =
      (⟨name, [], start⟩, unitsFrom here files) := by
  induction files generalizing name start here with
  | nil => rfl
  | cons f fs ih =>
      have hf := h f List.mem_cons_self
      have hfs := ih fun k hk => h k (List.mem_cons_of_mem f hk)
      rw [lines_join_cons hf.path_one_line, SourceUnit.splitLines, hf.markerName?_markerLine]
      simp only
      rw [SourceUnit.splitLines_append _ _ _ hf.unmarked_closedContent, hfs, Text.lines_flatten]
      simp only
      rw [List.append_nil, String.ofList_toList]
      rfl

/-- Joined files come apart into one unit for each of them. -/
theorem split_join {files : List SourceFile} (h : ∀ f ∈ files, f.IsPlain) :
    SourceUnit.split (join files) = unitsFrom 0 files := by
  have hkept : ∀ here, (unitsFrom here files).filter SourceUnit.isKept = unitsFrom here files := by
    clear h
    induction files with
    | nil => exact fun _ => rfl
    | cons f fs ih =>
        intro here
        rw [unitsFrom, List.filter_cons_of_pos rfl, ih]
  unfold SourceUnit.split
  rw [splitLines_join h]
  exact hkept 0

end SourceFile

end SchemaAtlas
