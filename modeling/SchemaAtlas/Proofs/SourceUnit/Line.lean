/-
One line of an input exchanged. What stands in the middle of a line and
holds no line break is part of that line whatever it is; so it decides
over the units of the input only by whether its line is a marker line.
If it is not, the line belongs to the unit begun in front of it, and the
units around that one have the same names and texts.

- `Text.exists_line`: the line around a place in a text.
- `SourceUnit.splitLines_front`: units by their lines from the front.
- `SourceUnit.unitsOf_exchange`: the units of two such inputs.
-/
import Mathlib.Data.List.Forall2
import SchemaAtlas.Proofs.SourceUnit

namespace SchemaAtlas

namespace Text

-- ==================================================== lines

/-- A piece without a line break begins the first line. -/
theorem lines_piece {t : Text} (hne : t ≠ []) (h : '\n' ∉ t) (s : Text) :
    lines (t ++ s) = (t ++ (lines s).headD []) :: (lines s).tail := by
  induction t with
  | nil => exact absurd rfl hne
  | cons c t ih =>
      obtain ⟨hc, ht⟩ : '\n' ≠ c ∧ '\n' ∉ t := by simpa using h
      rw [List.cons_append, lines, if_neg (Ne.symm hc)]
      cases t with
      | nil => cases hs : lines s <;> simp [hs]
      | cons d t => rw [ih (List.cons_ne_nil d t) ht]; rfl

/-- Around a place in a text stands one line, whatever is written there
without a line break. -/
theorem exists_line (p s : Text) :
    ∃ ls front behind ms, p = ls.flatten ++ front ∧
      ∀ t, t ≠ [] → '\n' ∉ t → lines (p ++ t ++ s) = ls ++ (front ++ t ++ behind) :: ms := by
  induction p with
  | nil =>
      refine ⟨[], [], (lines s).headD [], (lines s).tail, rfl, fun t hne ht => ?_⟩
      exact lines_piece hne ht s
  | cons c p ih =>
      obtain ⟨ls, front, behind, ms, rfl, hlines⟩ := ih
      by_cases hc : c = '\n'
      · refine ⟨[c] :: ls, front, behind, ms, rfl, fun t hne ht => ?_⟩
        rw [List.cons_append, List.cons_append, lines, if_pos hc, hlines t hne ht]
        rfl
      · cases ls with
        | nil =>
            refine ⟨[], c :: front, behind, ms, rfl, fun t hne ht => ?_⟩
            rw [List.cons_append, List.cons_append, lines, if_neg hc, hlines t hne ht]
            rfl
        | cons l ls =>
            refine ⟨(c :: l) :: ls, front, behind, ms, rfl, fun t hne ht => ?_⟩
            rw [List.cons_append, List.cons_append, lines, if_neg hc, hlines t hne ht]
            rfl

end Text

namespace SourceUnit

-- ==================================================== units by their lines

/-- Some lines make up some units and the beginning `x` of another one,
which what follows continues. -/
theorem splitLines_front (name : Option String) (start here : Nat) (ls : List Text) :
    ∃ us n st x,
      (us = [] ∧ st = start ∧ x = ls.flatten
        ∨ us ≠ [] ∧ st + Text.width x = here + Text.width ls.flatten)
      ∧ ∀ rest, (splitLines name start here (ls ++ rest)).1
            :: (splitLines name start here (ls ++ rest)).2 =
          us ++ ⟨n, x ++ (splitLines n st (here + Text.width ls.flatten) rest).1.text, st⟩
            :: (splitLines n st (here + Text.width ls.flatten) rest).2 := by
  induction ls generalizing name start here with
  | nil =>
      refine ⟨[], name, start, [], Or.inl ⟨rfl, rfl, rfl⟩, fun rest => ?_⟩
      exact congrArg (· :: _) (fst_splitLines name start here rest)
  | cons l ls ih =>
      have hwidth : here + Text.width (l :: ls).flatten =
          here + l.width + Text.width ls.flatten := by
        rw [List.flatten_cons, Text.width_append, Nat.add_assoc]
      rw [hwidth]
      cases hmarker : markerName? l with
      | some m =>
          obtain ⟨us, n, st, x, hplace, hunits⟩ :=
            ih (some (String.ofList m)) (here + l.width) (here + l.width)
          refine ⟨⟨name, [], start⟩ :: us, n, st, x, Or.inr ⟨List.cons_ne_nil _ _, ?_⟩, ?_⟩
          · rcases hplace with ⟨-, rfl, rfl⟩ | ⟨-, hplace⟩
            · rfl
            · exact hplace
          · intro rest
            rw [List.cons_append, splitLines, hmarker]
            exact congrArg (⟨name, [], start⟩ :: ·) (hunits rest)
      | none =>
          obtain ⟨us, n, st, x, hplace, hunits⟩ := ih name start (here + l.width)
          cases us with
          | nil =>
              obtain ⟨-, rfl, rfl⟩ : _ ∧ st = start ∧ x = ls.flatten := by
                rcases hplace with h | ⟨h, -⟩
                · exact h
                · exact absurd rfl h
              refine ⟨[], n, st, l ++ ls.flatten, Or.inl ⟨rfl, rfl, rfl⟩, ?_⟩
              intro rest
              obtain ⟨hfirst, hlater⟩ := List.cons.inj (hunits rest)
              rw [List.cons_append, splitLines, hmarker]
              simp only [hfirst, hlater, List.append_assoc]
              rfl
          | cons u us =>
              obtain ⟨hne, hend⟩ : _ ∧ st + Text.width x = _ := by
                rcases hplace with ⟨h, -⟩ | h
                · cases h
                · exact h
              refine ⟨{ u with text := l ++ u.text } :: us, n, st, x,
                Or.inr ⟨List.cons_ne_nil _ _, hend⟩, ?_⟩
              intro rest
              obtain ⟨hfirst, hlater⟩ := List.cons.inj (hunits rest)
              rw [List.cons_append, splitLines, hmarker]
              simp only [hfirst, hlater]
              rfl

/-- Where lines stand only moves their units. -/
theorem splitLines_moved (name : Option String) (start here start' here' : Nat) (ls : List Text) :
    (splitLines name start' here' ls).1.text = (splitLines name start here ls).1.text
      ∧ List.Forall₂ (fun u u' : SourceUnit => u'.name = u.name ∧ u'.text = u.text)
          (splitLines name start here ls).2 (splitLines name start' here' ls).2 := by
  induction ls generalizing name start here start' here' with
  | nil => exact ⟨rfl, .nil⟩
  | cons l ls ih =>
      rw [splitLines, splitLines]
      cases hmarker : markerName? l with
      | some m =>
          obtain ⟨htext, hlater⟩ := ih (some (String.ofList m)) (here + l.width)
            (here + l.width) (here' + l.width) (here' + l.width)
          refine ⟨rfl, .cons ⟨?_, htext⟩ hlater⟩
          rw [name_splitLines, name_splitLines]
      | none =>
          obtain ⟨htext, hlater⟩ := ih name start (here + l.width) start' (here' + l.width)
          exact ⟨congrArg (l ++ ·) htext, hlater⟩

-- ==================================================== one line

/-- Byte `n` of the input belongs to the text of the unit. -/
def Holds (u : SourceUnit) (n : Nat) : Prop :=
  u.start ≤ n ∧ n < u.start + u.text.width

/-- A byte belongs to one unit at most. -/
theorem eq_of_holds {us : List SourceUnit} (hus : us.Pairwise EndsBefore) {u v : SourceUnit}
    (hu : u ∈ us) (hv : v ∈ us) {n : Nat} (hun : u.Holds n) (hvn : v.Holds n) : u = v := by
  induction us with
  | nil => cases hu
  | cons w us ih =>
      obtain ⟨hw, hpairs⟩ := List.pairwise_cons.1 hus
      have happart : ∀ x ∈ us, ¬(w.Holds n ∧ x.Holds n) := by
        rintro x hx ⟨hwn, hxn⟩
        have hends : w.start + w.text.width ≤ x.start := hw x hx
        have hlow := hxn.1
        have hhigh := hwn.2
        omega
      rcases List.mem_cons.1 hu with rfl | hu'
      · rcases List.mem_cons.1 hv with rfl | hv'
        · rfl
        · exact absurd ⟨hun, hvn⟩ (happart v hv')
      · rcases List.mem_cons.1 hv with rfl | hv'
        · exact absurd ⟨hvn, hun⟩ (happart u hu')
        · exact ih hpairs hu' hv'

/-- The units of lines begin where the first of them does or behind. -/
theorem splitLines_start_le (name : Option String) (start : Nat) (ls : List Text) :
    ∀ u ∈ (splitLines name start start ls).1 :: (splitLines name start start ls).2,
      start ≤ u.start := by
  intro u hu
  rcases List.mem_cons.1 hu with rfl | hu
  · exact Nat.le_of_eq (start_splitLines name start start ls).symm
  · have hle := (splitLines_order name start start ls).1 u hu
    omega

/-- The units of an input around a piece `t` in the middle of a line, if
the byte at which it begins belongs to a unit. -/
theorem unitsOf_piece (p s : Text) :
    ∃ us n st front behind ms, st + Text.width front = Text.width p ∧
      ∀ t, t ≠ [] → '\n' ∉ t →
        (∃ u ∈ unitsOf (p ++ t ++ s), u.Holds (Text.width p)) →
          ∃ here, unitsOf (p ++ t ++ s) =
            us ++ ⟨n, front ++ t ++ (behind ++ (splitLines n st here ms).1.text), st⟩
              :: (splitLines n st here ms).2 := by
  obtain ⟨ls, front, behind, ms, rfl, hlines⟩ := Text.exists_line p s
  obtain ⟨us, n, st, x, hplace, hunits⟩ := splitLines_front none 0 0 ls
  have hx : st + Text.width x = Text.width ls.flatten := by
    rcases hplace with ⟨-, rfl, rfl⟩ | ⟨-, hplace⟩ <;> omega
  refine ⟨us, n, st, x ++ front, behind, ms, ?_, ?_⟩
  · rw [Text.width_append, Text.width_append]
    omega
  · rintro t hne ht ⟨u, hu, hlow, hhigh⟩
    have hinput := hunits ((front ++ t ++ behind) :: ms)
    rw [← hlines t hne ht] at hinput
    generalize hnext : 0 + Text.width ls.flatten = next at hinput
    rw [splitLines] at hinput
    cases hmarker : markerName? (front ++ t ++ behind) with
    | none =>
        rw [hmarker] at hinput
        refine ⟨next + Text.width (front ++ t ++ behind), hinput.trans ?_⟩
        simp only [List.append_assoc]
    | some m =>
        -- no byte of a marker line belongs to a unit
        rw [hmarker] at hinput
        have hpairs := pairwise_unitsOf (ls.flatten ++ front ++ t ++ s)
        rw [show unitsOf _ = _ from hinput] at hu hpairs
        have hwidth :
            Text.width (ls.flatten ++ front) < next + Text.width (front ++ t ++ behind) := by
          have hpos : 0 < Text.width t := Nat.pos_of_ne_zero fun h => hne (Text.width_eq_zero.1 h)
          simp only [Text.width_append]
          omega
        have hfront : Text.width ls.flatten ≤ Text.width (ls.flatten ++ front) := by
          rw [Text.width_append]
          exact Nat.le_add_right ..
        rcases List.mem_append.1 hu with hu | hu
        · have hends : u.start + u.text.width ≤ st :=
            (List.pairwise_append.1 hpairs).2.2 u hu _ List.mem_cons_self
          omega
        rcases List.mem_cons.1 hu with rfl | hu
        · rw [List.append_nil] at hhigh
          have hend : Text.width (ls.flatten ++ front) < st + Text.width x := hhigh
          omega
        · have hstart := splitLines_start_le (some (String.ofList m))
            (next + Text.width (front ++ t ++ behind)) ms u hu
          omega

/-- With another piece in its place, the unit that the piece belongs to
is the only one to change. -/
theorem unitsOf_exchange {p s t t' : Text} (hne : t ≠ []) (ht : '\n' ∉ t) (hne' : t' ≠ [])
    (ht' : '\n' ∉ t') (h : ∃ u ∈ unitsOf (p ++ t ++ s), u.Holds p.width)
    (h' : ∃ u ∈ unitsOf (p ++ t' ++ s), u.Holds p.width) :
    ∃ us n st front behind vs vs', st + Text.width front = p.width
      ∧ unitsOf (p ++ t ++ s) = us ++ ⟨n, front ++ t ++ behind, st⟩ :: vs
      ∧ unitsOf (p ++ t' ++ s) = us ++ ⟨n, front ++ t' ++ behind, st⟩ :: vs'
      ∧ List.Forall₂ (fun u u' : SourceUnit => u'.name = u.name ∧ u'.text = u.text) vs vs' := by
  obtain ⟨us, n, st, front, behind, ms, hplace, hunits⟩ := unitsOf_piece p s
  obtain ⟨here, hinput⟩ := hunits t hne ht h
  obtain ⟨here', hinput'⟩ := hunits t' hne' ht' h'
  obtain ⟨htext, hlater⟩ := splitLines_moved n st here st here' ms
  rw [htext] at hinput'
  exact ⟨us, n, st, front, _, _, _, hplace, hinput, hinput', hlater⟩

end SourceUnit

end SchemaAtlas
