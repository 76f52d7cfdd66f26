/-
Units as a partition. The marker lines of an input divide its lines: what
stands in front of the first is the preamble, and behind each of them
stand the lines of its unit, up to the next. So every line that is no
marker line belongs to exactly one unit, except in a blank preamble,
which is no unit.

`splitLines` gathers the text of a unit line by line and only knows at
the next marker line that the unit is complete. Here the units are read
off the tails of the list of lines instead: a tail that a marker line
begins gives a unit, whose text runs to the next marker line of the tail
(`splitLines_eq`). How lines belong to units then follows from how two
ways to divide the same list of lines lie to each other.

- `IsStretch`: a unit as the lines from one marker line to the next.
- `split_eq`: the units of an input, in order.
- `IsStretch.holds_or_avoids`: a line and a unit.
- `isPartition_split`: the units of an input partition it.
-/
import Mathlib.Data.List.DropRight
import Mathlib.Data.List.Infix
import Mathlib.Data.List.Pairwise
import SchemaAtlas.Proofs.SourceFile
import SchemaAtlas.Proofs.SourceUnit.Line

namespace SchemaAtlas

namespace Text

-- ==================================================== trimming

/-- A trimmed text has nothing left to trim. -/
theorem trim_trim (t : Text) : trim (trim t) = trim t := by
  have hend : ∀ s : Text, trimEnd (trimEnd s) = trimEnd s := by
    intro s
    rw [trimEnd, trimEnd, List.reverse_reverse, List.dropWhile_idempotent]
  have hhead := List.head?_dropWhile_not isBlank t
  unfold trim
  cases hstart : trimStart t with
  | nil => rfl
  | cons c r =>
      rw [show t.dropWhile isBlank = c :: r from hstart] at hhead
      -- trimming the end leaves the first character, which is not blank
      have hfirst : ∃ s, trimEnd (c :: r) = c :: s := by
        rw [← List.singleton_append, trimEnd_append]
        split
        · exact ⟨[], EndsPlain.trimEnd_eq (.singleton hhead)⟩
        · exact ⟨trimEnd r, rfl⟩
      obtain ⟨s, hs⟩ := hfirst
      rw [hs, trimStart_of_not_blank hhead, ← hs, hend]

theorem width_flatten_append (ls ms : List Text) :
    width (ls ++ ms).flatten = width ls.flatten + width ms.flatten := by
  rw [List.flatten_append, width_append]

end Text

/-- The line `l` of the text begins at byte `n`. -/
def Text.HasLine (t : Text) (n : Nat) (l : Text) : Prop :=
  ∃ ls ms, t.lines = ls ++ l :: ms ∧ n = Text.width ls.flatten

namespace SourceUnit

-- ==================================================== vocabulary

/-- Whether a line is no marker line. -/
def isUnmarked (l : Text) : Bool :=
  (markerName? l).isNone

/-- The lines in front of the first marker line, all lines if there is
none. -/
def preamble (input : Text) : Text :=
  (input.lines.takeWhile isUnmarked).flatten

/-- The unit behind a marker line at the head of the last lines of an
input of `size` bytes. -/
def behindMarker? (size : Nat) : List Text → Option SourceUnit
  | [] => none
  | l :: ls =>
      (markerName? l).map fun n =>
        ⟨some (String.ofList n), (ls.takeWhile isUnmarked).flatten, size - Text.width ls.flatten⟩

/-- The unit's text are the lines of the input from where the unit begins
up to the next marker line or the end. A named unit begins behind the
marker line that gives the name, an unnamed one at the beginning. -/
def IsStretch (input : Text) (u : SourceUnit) : Prop :=
  ∃ before inside behind, input.lines = before ++ (inside ++ behind)
    ∧ u.start = Text.width before.flatten
    ∧ u.text = inside.flatten
    ∧ (∀ l ∈ inside, markerName? l = none)
    ∧ (∀ l ∈ behind.head?, markerName? l ≠ none)
    ∧ match u.name with
      | none => before = []
      | some n => ∃ l ∈ before.getLast?, markerName? l = some n.toList

/-- The line `l` at byte `n` belongs to the unit's text. -/
def HoldsLine (u : SourceUnit) (n : Nat) (l : Text) : Prop :=
  u.start ≤ n ∧ n + l.width ≤ u.start + u.text.width

/-- No byte of the line `l` at byte `n` belongs to the unit's text. -/
def AvoidsLine (u : SourceUnit) (n : Nat) (l : Text) : Prop :=
  n + l.width ≤ u.start ∨ u.start + u.text.width ≤ n

/-- The units partition the input by its marker lines. -/
structure IsPartition (input : Text) (us : List SourceUnit) : Prop where
  /-- First the preamble, unless it is blank, then one unit for each
  marker line, in their order. -/
  units : us = (if (preamble input).isAllBlank then [] else [⟨none, preamble input, 0⟩])
    ++ input.lines.tails.filterMap (behindMarker? input.width)
  /-- Names have something in them and nothing to trim. -/
  named : ∀ u ∈ us, ∀ n ∈ u.name, n.toList ≠ [] ∧ Text.trim n.toList = n.toList
  /-- A unit's text is what the input has from where the unit begins. -/
  slice : ∀ u ∈ us, input.slice u.start (u.start + u.text.width) = u.text
  /-- It runs up to the next marker line or the end. -/
  stretch : ∀ u ∈ us, IsStretch input u
  /-- No unit's text has a marker line. -/
  unmarked : ∀ u ∈ us, ∀ l ∈ u.text.lines, markerName? l = none
  /-- A marker line belongs to no unit. -/
  marker : ∀ n l, input.HasLine n l → markerName? l ≠ none → ∀ u ∈ us, u.AvoidsLine n l
  /-- Any other line belongs to one unit and to no other, or it stands in
  a blank preamble and belongs to none. -/
  line : ∀ n l, input.HasLine n l → markerName? l = none →
    (∃ u ∈ us, u.HoldsLine n l ∧ ∀ v ∈ us, u ≠ v → v.AvoidsLine n l)
      ∨ (preamble input).isAllBlank = true ∧ n + l.width ≤ (preamble input).width
        ∧ ∀ u ∈ us, u.AvoidsLine n l

-- ==================================================== units by tails

theorem isUnmarked_iff {l : Text} : isUnmarked l = true ↔ markerName? l = none :=
  Option.isNone_iff_eq_none

/-- The units of lines: the lines in front of the first marker line, and
one unit for each tail that a marker line begins. -/
theorem splitLines_eq (name : Option String) (start here : Nat) (ls : List Text) :
    splitLines name start here ls =
      (⟨name, (ls.takeWhile isUnmarked).flatten, start⟩,
        ls.tails.filterMap (behindMarker? (here + Text.width ls.flatten))) := by
  induction ls generalizing name start here with
  | nil => rfl
  | cons l ls ih =>
      have hsize : here + Text.width (l :: ls).flatten =
          here + l.width + Text.width ls.flatten := by
        rw [List.flatten_cons, Text.width_append, Nat.add_assoc]
      rw [splitLines, hsize, List.tails_cons, List.takeWhile_cons]
      cases hmarker : markerName? l with
      | some n =>
          have hunmarked : isUnmarked l = false := by rw [isUnmarked, hmarker]; rfl
          have hunit : behindMarker? (here + l.width + Text.width ls.flatten) (l :: ls) =
              some ⟨some (String.ofList n), (ls.takeWhile isUnmarked).flatten, here + l.width⟩ := by
            rw [behindMarker?, hmarker, Nat.add_sub_cancel]
            rfl
          rw [hunmarked, List.filterMap_cons_some hunit]
          simp only [ih]
          rfl
      | none =>
          have hunmarked : isUnmarked l = true := isUnmarked_iff.2 hmarker
          have hnone : behindMarker? (here + l.width + Text.width ls.flatten) (l :: ls) = none := by
            rw [behindMarker?, hmarker]
            rfl
          rw [hunmarked, List.filterMap_cons_none hnone]
          simp only [ih]
          rfl

theorem isKept_of_behindMarker? {size : Nat} {ls : List Text} {u : SourceUnit}
    (h : behindMarker? size ls = some u) : isKept u = true := by
  cases ls with
  | nil => cases h
  | cons l ls =>
      obtain ⟨n, -, rfl⟩ := Option.map_eq_some_iff.1 h
      rfl

/-- The units of an input: the preamble, unless it is blank, and one unit
for each marker line. -/
theorem split_eq (input : Text) :
    split input = (if (preamble input).isAllBlank then [] else [⟨none, preamble input, 0⟩])
      ++ input.lines.tails.filterMap (behindMarker? input.width) := by
  have hkept : (input.lines.tails.filterMap (behindMarker? input.width)).filter isKept =
      input.lines.tails.filterMap (behindMarker? input.width) := by
    apply List.filter_eq_self.2
    intro u hu
    obtain ⟨ls, -, hls⟩ := List.mem_filterMap.1 hu
    exact isKept_of_behindMarker? hls
  rw [split, splitLines_eq, Text.lines_flatten, Nat.zero_add]
  show List.filter isKept (⟨none, preamble input, 0⟩ :: _) = _
  rw [List.filter_cons, hkept]
  cases hblank : (preamble input).isAllBlank with
  | true => simp [isKept, hblank]
  | false => simp [isKept, hblank]

-- ==================================================== stretches

section

variable {input : Text} {u : SourceUnit}

/-- Lines part in front of the first marker line. -/
theorem unmarked_takeWhile (ls : List Text) :
    ∀ l ∈ ls.takeWhile isUnmarked, markerName? l = none :=
  fun _ h => isUnmarked_iff.1 (List.mem_takeWhile_imp h)

theorem marked_dropWhile (ls : List Text) :
    ∀ l ∈ (ls.dropWhile isUnmarked).head?, markerName? l ≠ none := by
  intro l hl hnone
  have hhead := List.head?_dropWhile_not isUnmarked ls
  rw [Option.mem_def.1 hl] at hhead
  exact absurd (isUnmarked_iff.2 hnone) (Bool.eq_false_iff.1 hhead)

/-- The preamble is a stretch without a name. -/
theorem isStretch_preamble (input : Text) : IsStretch input ⟨none, preamble input, 0⟩ :=
  ⟨[], input.lines.takeWhile isUnmarked, input.lines.dropWhile isUnmarked,
    List.takeWhile_append_dropWhile.symm, rfl, rfl, unmarked_takeWhile _, marked_dropWhile _, rfl⟩

/-- What stands behind a marker line is a stretch with the name it gives. -/
theorem isStretch_of_behindMarker? {ls : List Text} (hls : ls <:+ input.lines)
    (h : behindMarker? input.width ls = some u) : IsStretch input u := by
  obtain ⟨front, hlines⟩ := hls
  cases ls with
  | nil => cases h
  | cons l ls =>
      obtain ⟨n, hn, rfl⟩ := Option.map_eq_some_iff.1 h
      have hsize : input.width = Text.width (front ++ [l]).flatten + Text.width ls.flatten := by
        rw [← Text.width_flatten_append, List.append_assoc, List.singleton_append, hlines,
          Text.lines_flatten]
      refine ⟨front ++ [l], ls.takeWhile isUnmarked, ls.dropWhile isUnmarked, ?_, ?_, rfl,
        unmarked_takeWhile _, marked_dropWhile _, l, List.getLast?_concat, ?_⟩
      · rw [List.takeWhile_append_dropWhile, List.append_assoc, List.singleton_append, hlines]
      · show input.width - Text.width ls.flatten = _
        omega
      · rw [hn, String.toList_ofList]

theorem mem_split_iff :
    u ∈ split input ↔ (preamble input).isAllBlank = false ∧ u = ⟨none, preamble input, 0⟩
      ∨ ∃ ls, ls <:+ input.lines ∧ behindMarker? input.width ls = some u := by
  rw [split_eq, List.mem_append, List.mem_filterMap]
  refine or_congr ?_ (exists_congr fun ls => and_congr_left' (List.mem_tails ls _))
  cases (preamble input).isAllBlank with
  | true => simp
  | false => simp

theorem isStretch_of_mem_split (h : u ∈ split input) : IsStretch input u := by
  rcases mem_split_iff.1 h with ⟨-, rfl⟩ | ⟨ls, hls, hu⟩
  · exact isStretch_preamble input
  · exact isStretch_of_behindMarker? hls hu

/-- A unit without a name is a preamble that is not blank. -/
theorem not_blank_of_unnamed (h : u ∈ split input) (hname : u.name = none) :
    (preamble input).isAllBlank = false := by
  rcases mem_split_iff.1 h with ⟨hblank, -⟩ | ⟨ls, -, hu⟩
  · exact hblank
  · cases ls with
    | nil => cases hu
    | cons l ls =>
        obtain ⟨n, -, rfl⟩ := Option.map_eq_some_iff.1 hu
        cases hname

-- ==================================================== lines and units

variable {ls ms : List Text} {l : Text}

/-- Of two ways to part a list, the one at an element leaves the element
on one side of the other. -/
theorem append_eq_append_cons {α : Type} {us vs ls ms : List α} {l : α}
    (h : us ++ vs = ls ++ l :: ms) :
    (∃ a, us = ls ++ l :: a) ∨ ∃ a, ls = us ++ a ∧ vs = a ++ l :: ms := by
  rcases List.append_eq_append_iff.1 h with ⟨a, hls, hvs⟩ | ⟨b, hus, hms⟩
  · exact Or.inr ⟨a, hls, hvs⟩
  · rcases List.cons_eq_append_iff.1 hms with ⟨rfl, hvs⟩ | ⟨a, rfl, -⟩
    · exact Or.inr ⟨[], by rw [hus, List.append_nil, List.append_nil], hvs⟩
    · exact Or.inl ⟨a, hus⟩

/-- A unit has all of a line or nothing of it. A line it has is no marker
line and, if the unit has a name, stands behind one. -/
theorem IsStretch.holds_or_avoids (hu : IsStretch input u) (hlines : input.lines = ls ++ l :: ms) :
    u.AvoidsLine (Text.width ls.flatten) l ∨
      u.HoldsLine (Text.width ls.flatten) l ∧ markerName? l = none
        ∧ (u.name ≠ none → ∃ m ∈ ls, markerName? m ≠ none) := by
  obtain ⟨before, inside, behind, hparts, hstart, htext, hunmarked, -, hname⟩ := hu
  rw [AvoidsLine, HoldsLine, hstart, htext]
  rcases append_eq_append_cons (hparts.symm.trans hlines) with ⟨a, rfl⟩ | ⟨a, rfl, hrest⟩
  · left; left
    simp only [Text.width_flatten_append, List.flatten_cons, Text.width_append]
    omega
  rcases append_eq_append_cons hrest with ⟨c, rfl⟩ | ⟨c, rfl, -⟩
  · right
    refine ⟨?_, hunmarked l (by simp), fun hsome => ?_⟩
    · simp only [Text.width_flatten_append, List.flatten_cons, Text.width_append]
      omega
    · obtain ⟨n, hn⟩ := Option.ne_none_iff_exists'.1 hsome
      rw [hn] at hname
      obtain ⟨m, hm, hmarker⟩ := hname
      refine ⟨m, List.mem_append_left a (List.mem_of_getLast? hm), ?_⟩
      rw [hmarker]
      exact Option.some_ne_none _
  · left; right
    simp only [Text.width_flatten_append]
    omega

/-- Of two units, one ends before the other begins. -/
def IsApart (u v : SourceUnit) : Prop :=
  EndsBefore u v ∨ EndsBefore v u

theorem isApart_of_ne {v : SourceUnit} (hu : u ∈ split input) (hv : v ∈ split input)
    (hne : u ≠ v) : IsApart u v := by
  have hsymm : Std.Symm IsApart := ⟨fun _ _ => Or.symm⟩
  have hpairs : (split input).Pairwise IsApart := (pairwise_split input).imp Or.inl
  exact hpairs.forall hu hv hne

/-- If one unit has a line, no other has any of it. -/
theorem avoids_of_ne {v : SourceUnit} {n : Nat} (hu : u ∈ split input) (hv : v ∈ split input)
    (hne : u ≠ v) (h : u.HoldsLine n l) : v.AvoidsLine n l := by
  obtain ⟨hlow, hhigh⟩ := h
  rcases isApart_of_ne hu hv hne with huv | hvu
  · have hends : u.start + u.text.width ≤ v.start := huv
    left
    omega
  · have hends : v.start + v.text.width ≤ u.start := hvu
    right
    omega

/-- Lines hold no marker line, or there is a last one. -/
theorem exists_last_marker (ls : List Text) :
    (∀ k ∈ ls, markerName? k = none) ∨
      ∃ front m n behind, ls = front ++ m :: behind ∧ markerName? m = some n
        ∧ ∀ k ∈ behind, markerName? k = none := by
  induction ls with
  | nil => exact Or.inl (List.forall_mem_nil _)
  | cons l ls ih =>
      rcases ih with hnone | ⟨front, m, n, behind, rfl, hm, hbehind⟩
      · cases hl : markerName? l with
        | none => exact Or.inl (List.forall_mem_cons.2 ⟨hl, hnone⟩)
        | some n => exact Or.inr ⟨[], l, n, ls, rfl, hl, hnone⟩
      · exact Or.inr ⟨l :: front, m, n, behind, rfl, hm, hbehind⟩

/-- Unmarked lines in front of a line `l` that is no marker line are read
on through `l`. -/
theorem width_takeWhile_le (hls : ∀ k ∈ ls, markerName? k = none) (hl : markerName? l = none)
    (ms : List Text) :
    Text.width ls.flatten + l.width ≤
      Text.width ((ls ++ l :: ms).takeWhile isUnmarked).flatten := by
  have hfront : ∀ k ∈ ls ++ [l], isUnmarked k = true := by
    intro k hk
    rcases List.mem_append.1 hk with hk | hk
    · exact isUnmarked_iff.2 (hls k hk)
    · rw [List.mem_singleton.1 hk]
      exact isUnmarked_iff.2 hl
  rw [List.append_cons, List.takeWhile_append_of_pos hfront]
  simp only [Text.width_flatten_append, List.flatten_cons, List.flatten_nil, List.append_nil]
  omega

/-- A line that is no marker line belongs to a unit, the one begun by the
last marker line in front of it, or it stands in the preamble. -/
theorem exists_holds (hlines : input.lines = ls ++ l :: ms) (hl : markerName? l = none) :
    (∃ u ∈ split input, u.HoldsLine (Text.width ls.flatten) l) ∨
      (preamble input).isAllBlank = true
        ∧ Text.width ls.flatten + l.width ≤ (preamble input).width
        ∧ ∀ k ∈ ls, markerName? k = none := by
  rcases exists_last_marker ls with hnone | ⟨front, m, n, behind, rfl, hm, hbehind⟩
  · have hinside : Text.width ls.flatten + l.width ≤ (preamble input).width := by
      rw [preamble, hlines]
      exact width_takeWhile_le hnone hl ms
    cases hblank : (preamble input).isAllBlank with
    | true => exact Or.inr ⟨rfl, hinside, hnone⟩
    | false =>
        refine Or.inl ⟨_, mem_split_iff.2 (Or.inl ⟨hblank, rfl⟩), Nat.zero_le _, ?_⟩
        rw [Nat.zero_add]
        exact hinside
  · left
    rw [List.append_assoc, List.cons_append] at hlines
    have hunit : behindMarker? input.width (m :: (behind ++ l :: ms)) =
        some ⟨some (String.ofList n), ((behind ++ l :: ms).takeWhile isUnmarked).flatten,
          input.width - Text.width (behind ++ l :: ms).flatten⟩ := by
      rw [behindMarker?, hm]
      rfl
    have hsize := congrArg (fun ls => Text.width (List.flatten ls)) hlines
    have hinside := width_takeWhile_le hbehind hl ms
    simp only [Text.lines_flatten, Text.width_flatten_append, List.flatten_cons,
      Text.width_append] at hsize
    refine ⟨_, mem_split_iff.2 (Or.inr ⟨_, ⟨front, hlines.symm⟩, hunit⟩), ?_⟩
    simp only [HoldsLine, Text.width_flatten_append, List.flatten_cons, Text.width_append]
    omega

end

-- ==================================================== partition

/-- The units of an input partition it by its marker lines: each line is
a marker line, belongs to exactly one unit or stands in a blank preamble,
and each unit reaches from its marker line to the next. -/
theorem isPartition_split (input : Text) : IsPartition input (split input) where
  units := split_eq input
  named u hu n hn := by
    obtain ⟨_, _, _, -, -, -, -, -, hname⟩ := isStretch_of_mem_split hu
    rw [Option.mem_def.1 hn] at hname
    obtain ⟨l, -, hl⟩ := hname
    obtain ⟨r, -, htrim, hne⟩ := markerName?_eq_some_iff.1 hl
    exact ⟨hne, by rw [← htrim, Text.trim_trim]⟩
  slice u hu := by
    obtain ⟨p, r, hinput, hstart⟩ := exists_place hu
    rw [hstart, hinput, Text.slice_append]
  stretch u hu := isStretch_of_mem_split hu
  unmarked u hu := by
    obtain ⟨before, inside, behind, hparts, -, htext, hunmarked, -, -⟩ := isStretch_of_mem_split hu
    rw [htext, Text.lines_flatten_of_infix ⟨before, behind, by rw [List.append_assoc, hparts]⟩]
    exact hunmarked
  marker n l hline hmarker u hu := by
    obtain ⟨ls, ms, hlines, rfl⟩ := hline
    rcases (isStretch_of_mem_split hu).holds_or_avoids hlines with havoids | ⟨-, hnone, -⟩
    · exact havoids
    · exact absurd hnone hmarker
  line n l hline hnone := by
    obtain ⟨ls, ms, hlines, rfl⟩ := hline
    rcases exists_holds hlines hnone with ⟨u, hu, hholds⟩ | ⟨hblank, hinside, hfront⟩
    · exact Or.inl ⟨u, hu, hholds, fun v hv hne => avoids_of_ne hu hv hne hholds⟩
    · refine Or.inr ⟨hblank, hinside, fun u hu => ?_⟩
      rcases (isStretch_of_mem_split hu).holds_or_avoids hlines with havoids | ⟨-, -, hbehind⟩
      · exact havoids
      · have hnamed : u.name ≠ none := by
          intro hname
          rw [not_blank_of_unnamed hu hname] at hblank
          cases hblank
        obtain ⟨m, hm, hmarker⟩ := hbehind hnamed
        exact absurd (hfront m hm) hmarker

end SourceUnit

end SchemaAtlas
