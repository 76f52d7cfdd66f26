/-
Units of an input. The lines of a text can be taken apart anywhere:
consecutive lines of a text are the lines of the text they make up. The
text of a unit consists of such lines, none of them a marker line; so
taken apart again it is one unit.

- `Text.lines_flatten_of_infix`: consecutive lines.
- `SourceUnit.splitLines_text`: the text of a unit.
- `SourceUnit.split_text`: a unit taken apart again.
- `SourceUnit.pairwise_split`: units stand one behind the other.
- `SourceUnit.exists_place`: the text of a unit in the input.
-/
import SchemaAtlas.SourceUnit

namespace SchemaAtlas

namespace Text

-- ==================================================== lines

theorem lines_line {l : Text} (h : '\n' ∉ l) (rest : Text) :
    lines (l ++ '\n' :: rest) = (l ++ ['\n']) :: lines rest := by
  induction l with
  | nil => simp [lines]
  | cons c cs ih =>
      obtain ⟨hc, hcs⟩ : '\n' ≠ c ∧ '\n' ∉ cs := by simpa using h
      rw [List.cons_append, lines, if_neg (Ne.symm hc), ih hcs]
      rfl

/-- A line that is not the last ends in the only line break it holds. -/
theorem lines_cons_cons {t l m : Text} {ls : List Text} (h : lines t = l :: m :: ls) :
    ∃ k, l = k ++ ['\n'] ∧ '\n' ∉ k := by
  induction t generalizing l with
  | nil => cases h
  | cons c cs ih =>
      rw [lines] at h
      by_cases hc : c = '\n'
      · rw [if_pos hc] at h
        obtain ⟨rfl, -⟩ := List.cons.inj h
        exact ⟨[], by rw [hc]; rfl, List.not_mem_nil⟩
      · rw [if_neg hc] at h
        split at h
        · cases h
        · next k ks hk =>
            obtain ⟨rfl, rfl⟩ := List.cons.inj h
            obtain ⟨k', rfl, hk'⟩ := ih hk
            refine ⟨c :: k', rfl, ?_⟩
            intro hmem
            rcases List.mem_cons.1 hmem with rfl | hmem
            · exact hc rfl
            · exact hk' hmem

/-- Behind the first line the others are the lines of what follows. -/
theorem lines_tail {t l : Text} {ls : List Text} (h : lines t = l :: ls) :
    lines ls.flatten = ls := by
  induction t generalizing l ls with
  | nil => cases h
  | cons c cs ih =>
      rw [lines] at h
      split at h
      · obtain ⟨-, rfl⟩ := List.cons.inj h
        rw [lines_flatten]
      · split at h
        · obtain ⟨-, rfl⟩ := List.cons.inj h
          rfl
        · next k ks hk =>
            obtain ⟨-, rfl⟩ := List.cons.inj h
            exact ih hk

theorem lines_flatten_of_prefix {t : Text} {ls ms : List Text} (h : lines t = ls ++ ms) :
    lines ls.flatten = ls := by
  induction ls generalizing t with
  | nil => rfl
  | cons l ls ih =>
      rw [List.cons_append] at h
      have hls : lines ls.flatten = ls := ih (lines_tail h)
      cases hrest : ls ++ ms with
      | nil =>
          obtain ⟨rfl, rfl⟩ := List.append_eq_nil_iff.1 hrest
          have hone : lines t = [l] := h
          rw [← hone, lines_flatten]
      | cons m ks =>
          rw [hrest] at h
          obtain ⟨k, rfl, hk⟩ := lines_cons_cons h
          have hline := lines_line hk ls.flatten
          rw [hls] at hline
          simpa using hline

theorem lines_flatten_of_suffix {t : Text} {ls ms : List Text} (h : lines t = ls ++ ms) :
    lines ms.flatten = ms := by
  induction ls generalizing t with
  | nil =>
      rw [List.nil_append] at h
      rw [← h, lines_flatten]
  | cons l ls ih => exact ih (lines_tail h)

/-- Consecutive lines of a text are the lines of what they make up. -/
theorem lines_flatten_of_infix {t : Text} {ls : List Text} (h : ls <:+: lines t) :
    lines ls.flatten = ls := by
  obtain ⟨front, behind, hlines⟩ := h
  rw [List.append_assoc] at hlines
  exact lines_flatten_of_prefix (lines_flatten_of_suffix hlines.symm)

end Text

namespace SourceUnit

-- ==================================================== texts of units

/-- Lines without a marker make up one unit. -/
theorem splitLines_unmarked (name : Option String) (start here : Nat) {ls : List Text}
    (h : ∀ l ∈ ls, markerName? l = none) :
    splitLines name start here ls = (⟨name, ls.flatten, start⟩, []) := by
  induction ls generalizing here with
  | nil => rfl
  | cons l ls ih =>
      have hl := h l List.mem_cons_self
      have hls := ih (here + l.width) fun k hk => h k (List.mem_cons_of_mem l hk)
      rw [splitLines, hl]
      simp only
      rw [hls]
      rfl

/-- A text without a marker line is one unit without a name, or none at
all if it is blank. -/
theorem split_unmarked {input : Text} (h : ∀ l ∈ input.lines, markerName? l = none) :
    split input = [⟨none, input, 0⟩].filter isKept := by
  rw [split, splitLines_unmarked none 0 0 h, Text.lines_flatten]

/-- The text of the first unit begins with the lines, that of any other
stands somewhere among them. -/
theorem splitLines_text (name : Option String) (start here : Nat) (ls : List Text) :
    (∃ ks, ks <+: ls ∧ (splitLines name start here ls).1.text = ks.flatten
        ∧ ∀ k ∈ ks, markerName? k = none)
      ∧ ∀ u ∈ (splitLines name start here ls).2,
        ∃ ks, ks <:+: ls ∧ u.text = ks.flatten ∧ ∀ k ∈ ks, markerName? k = none := by
  induction ls generalizing name start here with
  | nil => exact ⟨⟨[], List.prefix_rfl, rfl, List.forall_mem_nil _⟩, List.forall_mem_nil _⟩
  | cons l ls ih =>
      rw [splitLines]
      cases hmarker : markerName? l with
      | some n =>
          obtain ⟨⟨ks, hks, htext, hunmarked⟩, hlater⟩ :=
            ih (some (String.ofList n)) (here + l.width) (here + l.width)
          refine ⟨⟨[], List.nil_prefix, rfl, List.forall_mem_nil _⟩, ?_⟩
          intro u hu
          rcases List.mem_cons.1 hu with rfl | hu
          · exact ⟨ks, hks.isInfix.trans (List.suffix_cons l ls).isInfix, htext, hunmarked⟩
          · obtain ⟨ks, hks, hrest⟩ := hlater u hu
            exact ⟨ks, hks.trans (List.suffix_cons l ls).isInfix, hrest⟩
      | none =>
          obtain ⟨⟨ks, hks, htext, hunmarked⟩, hlater⟩ := ih name start (here + l.width)
          refine ⟨⟨l :: ks, List.cons_prefix_cons.2 ⟨rfl, hks⟩, ?_, ?_⟩, ?_⟩
          · show l ++ _ = _
            rw [htext]
            rfl
          · exact List.forall_mem_cons.2 ⟨hmarker, hunmarked⟩
          · intro u hu
            obtain ⟨ks, hks, hrest⟩ := hlater u hu
            exact ⟨ks, hks.trans (List.suffix_cons l ls).isInfix, hrest⟩

/-- Taken apart again, the text of a unit is one unit without a name,
or none at all if it is blank. -/
theorem split_text {input : Text} {u : SourceUnit} (h : u ∈ split input) :
    split u.text = [⟨none, u.text, 0⟩].filter isKept := by
  obtain ⟨ks, hks, htext, hunmarked⟩ : ∃ ks, ks <:+: input.lines ∧ u.text = ks.flatten
      ∧ ∀ k ∈ ks, markerName? k = none := by
    obtain ⟨hfirst, hlater⟩ := splitLines_text none 0 0 input.lines
    rcases List.mem_cons.1 (List.mem_filter.1 h).1 with rfl | hu
    · obtain ⟨ks, hks, hrest⟩ := hfirst
      exact ⟨ks, hks.isInfix, hrest⟩
    · exact hlater u hu
  have hlines : u.text.lines = ks := by
    rw [htext]
    exact Text.lines_flatten_of_infix hks
  exact split_unmarked (hlines ▸ hunmarked)

-- ==================================================== places of units

theorem start_splitLines (name : Option String) (start here : Nat) (ls : List Text) :
    (splitLines name start here ls).1.start = start := by
  induction ls generalizing here with
  | nil => rfl
  | cons l ls ih =>
      rw [splitLines]
      split
      · rfl
      · exact ih (here + l.width)

theorem name_splitLines (name : Option String) (start here : Nat) (ls : List Text) :
    (splitLines name start here ls).1.name = name := by
  induction ls generalizing here with
  | nil => rfl
  | cons l ls ih =>
      rw [splitLines]
      split
      · rfl
      · exact ih (here + l.width)

theorem fst_splitLines (name : Option String) (start here : Nat) (ls : List Text) :
    (splitLines name start here ls).1 =
      ⟨name, (splitLines name start here ls).1.text, start⟩ := by
  have hname := name_splitLines name start here ls
  have hstart := start_splitLines name start here ls
  generalize (splitLines name start here ls).1 = u at hname hstart
  obtain ⟨n, text, st⟩ := u
  obtain rfl : n = name := hname
  obtain rfl : st = start := hstart
  rfl

/-- The unit `u` ends before the unit `v` begins. -/
def EndsBefore (u v : SourceUnit) : Prop :=
  u.start + u.text.width ≤ v.start

theorem splitLines_order (name : Option String) (start here : Nat) (ls : List Text) :
    (∀ v ∈ (splitLines name start here ls).2,
        here + (splitLines name start here ls).1.text.width ≤ v.start)
      ∧ (splitLines name start here ls).2.Pairwise EndsBefore := by
  induction ls generalizing name start here with
  | nil => exact ⟨List.forall_mem_nil _, .nil⟩
  | cons l ls ih =>
      rw [splitLines]
      cases hmarker : markerName? l with
      | some n =>
          let next := here + l.width
          have hstart := start_splitLines (some (String.ofList n)) next next ls
          obtain ⟨hlater, hpairs⟩ := ih (some (String.ofList n)) next next
          constructor
          · intro v hv
            show here + 0 ≤ v.start
            rcases List.mem_cons.1 hv with rfl | hv
            · rw [hstart]
              omega
            · have hle := hlater v hv
              omega
          · refine List.pairwise_cons.2 ⟨?_, hpairs⟩
            intro v hv
            rw [EndsBefore, hstart]
            exact hlater v hv
      | none =>
          obtain ⟨hlater, hpairs⟩ := ih name start (here + l.width)
          refine ⟨?_, hpairs⟩
          intro v hv
          have hle := hlater v hv
          show here + Text.width (l ++ _) ≤ v.start
          rw [Text.width_append]
          omega

/-- The units of an input, blank ones without a name included. -/
def unitsOf (input : Text) : List SourceUnit :=
  (splitLines none 0 0 input.lines).1 :: (splitLines none 0 0 input.lines).2

theorem pairwise_unitsOf (input : Text) : (unitsOf input).Pairwise EndsBefore := by
  obtain ⟨hlater, hpairs⟩ := splitLines_order none 0 0 input.lines
  have hstart := start_splitLines none 0 0 input.lines
  refine List.pairwise_cons.2 ⟨?_, hpairs⟩
  intro v hv
  rw [EndsBefore, hstart]
  exact hlater v hv

/-- Units stand one behind the other. -/
theorem pairwise_split (input : Text) : (split input).Pairwise EndsBefore :=
  (pairwise_unitsOf input).filter isKept

/-- The text of the first unit begins with the lines; that of any other
begins where the unit does. -/
theorem splitLines_place (name : Option String) (start here : Nat) (ls : List Text) :
    (∃ r, ls.flatten = (splitLines name start here ls).1.text ++ r)
      ∧ ∀ u ∈ (splitLines name start here ls).2,
        ∃ p r, ls.flatten = p ++ u.text ++ r ∧ u.start = here + Text.width p := by
  induction ls generalizing name start here with
  | nil => exact ⟨⟨[], rfl⟩, List.forall_mem_nil _⟩
  | cons l ls ih =>
      rw [splitLines]
      cases hmarker : markerName? l with
      | some n =>
          let next := here + l.width
          obtain ⟨⟨q, hfirst⟩, hlater⟩ := ih (some (String.ofList n)) next next
          refine ⟨⟨l ++ ls.flatten, rfl⟩, ?_⟩
          intro u hu
          rcases List.mem_cons.1 hu with rfl | hu
          · refine ⟨l, q, ?_, start_splitLines (some (String.ofList n)) next next ls⟩
            rw [List.flatten_cons, hfirst, List.append_assoc]
          · obtain ⟨p, r, hflatten, hstart⟩ := hlater u hu
            refine ⟨l ++ p, r, ?_, ?_⟩
            · rw [List.flatten_cons, hflatten]
              simp
            · rw [hstart, Text.width_append]
              omega
      | none =>
          obtain ⟨⟨q, hfirst⟩, hlater⟩ := ih name start (here + l.width)
          refine ⟨⟨q, ?_⟩, ?_⟩
          · show l ++ ls.flatten = l ++ _ ++ q
            rw [hfirst, List.append_assoc]
          · intro u hu
            obtain ⟨p, r, hflatten, hstart⟩ := hlater u hu
            refine ⟨l ++ p, r, ?_, ?_⟩
            · rw [List.flatten_cons, hflatten]
              simp
            · rw [hstart, Text.width_append]
              omega

/-- The text of a unit stands in the input where the unit begins. -/
theorem exists_place {input : Text} {u : SourceUnit} (h : u ∈ split input) :
    ∃ p r, input = p ++ u.text ++ r ∧ u.start = Text.width p := by
  obtain ⟨⟨q, hfirst⟩, hlater⟩ := splitLines_place none 0 0 input.lines
  rw [Text.lines_flatten] at hfirst hlater
  rcases List.mem_cons.1 (List.mem_filter.1 h).1 with rfl | hu
  · exact ⟨[], q, hfirst, start_splitLines none 0 0 input.lines⟩
  · obtain ⟨p, r, hinput, hstart⟩ := hlater u hu
    exact ⟨p, r, hinput, by rw [hstart, Nat.zero_add]⟩

end SourceUnit

end SchemaAtlas
