/-
Writes that tell of what they replace. Elements are written into an
empty map one after the other, each under its key; a write at a key that
has a value is reported together with that value. The map alone shows
only what is left in the end, but the value that a write replaces is
that of the nearest element in front with the same key, so the reports
can be read off the list.

Each element is either the first of its key, which adds an entry, or
repeats a key, which adds a report. This is the count of the reports.

- `OrderedMap.previous?`: the nearest element in front with the key.
- `OrderedMap.foldl_track`: the reports of a run of writes.
- `OrderedMap.length_reports`: how many there are.
- `OrderedMap.mem_values_foldl_insert_iff`,
  `OrderedMap.pairwise_values_foldl_insert`: what is left, in its order.
- `OrderedMap.previous?_eq_head?_iff`: the nearest element in front is
  the first one as long as no key has three.
-/
import SchemaAtlas.Proofs.OrderedMap

namespace SchemaAtlas

namespace OrderedMap

section

variable {κ α β ω : Type} [DecidableEq κ] (key : β → κ) (value : β → α) (pos : β → Nat)
  (report : β → α → ω)

-- ==================================================== in front

/-- The elements in front of `x` that have its key. -/
def earlier (xs : List β) (x : β) : List β :=
  xs.filter fun y => key y = key x ∧ pos y < pos x

/-- The nearest element in front of `x` that has its key. -/
def previous? (xs : List β) (x : β) : Option β :=
  (earlier key pos xs x).getLast?

/-- Writes `x`, and reports a value that it replaces. -/
def track (s : OrderedMap κ α × List ω) (x : β) : OrderedMap κ α × List ω :=
  (s.1.insert (key x) (value x), s.2 ++ ((s.1.get? (key x)).map (report x)).toList)

variable {xs : List β} {x y : β}

theorem mem_earlier : y ∈ earlier key pos xs x ↔ y ∈ xs ∧ key y = key x ∧ pos y < pos x := by
  rw [earlier, List.mem_filter, decide_eq_true_iff]

/-- Whether an element repeats a key. -/
theorem isSome_previous?_iff :
    (previous? key pos xs x).isSome ↔ ∃ y ∈ xs, key y = key x ∧ pos y < pos x := by
  rw [previous?, List.getLast?_isSome, ← List.isEmpty_eq_false_iff,
    List.isEmpty_eq_false_iff_exists_mem]
  exact exists_congr fun _ => mem_earlier key pos

/-- What stands behind an element is not in front of it. -/
theorem earlier_append_of_le {zs : List β} (h : ∀ z ∈ zs, pos x ≤ pos z) :
    earlier key pos (xs ++ zs) x = earlier key pos xs x := by
  have hnone : zs.filter (fun y => key y = key x ∧ pos y < pos x) = [] := by
    rw [List.filter_eq_nil_iff]
    intro z hz hlt
    exact Nat.not_lt.2 (h z hz) (of_decide_eq_true hlt).2
  rw [earlier, List.filter_append, hnone, List.append_nil]
  rfl

/-- In front of the last element stand all others. -/
theorem earlier_of_forall_lt (h : ∀ y ∈ xs, pos y < pos x) :
    earlier key pos xs x = xs.filter fun y => key y = key x := by
  apply List.filter_congr
  intro y hy
  rw [decide_eq_decide]
  exact and_iff_left (h y hy)

-- ==================================================== reports

/-- What a run of writes leaves at a key is the last value of the key. -/
theorem get?_foldl_insert_empty (xs : List β) (k : κ) :
    (xs.foldl (fun m x => m.insert (key x) (value x)) empty).get? k =
      (xs.filter fun x => key x = k).getLast?.map value := by
  induction xs using List.reverseRecOn with
  | nil => rfl
  | append_singleton xs x ih =>
      rw [List.foldl_append, List.foldl_cons, List.foldl_nil, get?_insert, ih, List.filter_append]
      by_cases hk : key x = k
      · have hlast : [x].filter (fun x => key x = k) = [x] := List.filter_eq_self.2 (by simpa)
        rw [if_pos hk, hlast, List.getLast?_concat]
        rfl
      · have hnone : [x].filter (fun x => key x = k) = [] := List.filter_eq_nil_iff.2 (by simpa)
        rw [if_neg hk, hnone, List.append_nil]

/-- The reports of a run of writes: each element that repeats a key is
reported with the nearest one in front that has it. -/
theorem foldl_track (hpos : xs.Pairwise fun x y => pos x < pos y) :
    xs.foldl (track key value report) (empty, []) =
      (xs.foldl (fun m x => m.insert (key x) (value x)) empty,
        xs.filterMap fun x => (previous? key pos xs x).map fun y => report x (value y)) := by
  induction xs using List.reverseRecOn with
  | nil => rfl
  | append_singleton xs x ih =>
      obtain ⟨hxs, -, hx⟩ := List.pairwise_append.1 hpos
      have hlast : ∀ y ∈ xs, pos y < pos x := fun y hy => hx y hy x (List.mem_singleton.2 rfl)
      have hold : ∀ y ∈ xs, previous? key pos (xs ++ [x]) y = previous? key pos xs y := by
        intro y hy
        rw [previous?, earlier_append_of_le, previous?]
        intro z hz
        rw [List.mem_singleton.1 hz]
        exact Nat.le_of_lt (hlast y hy)
      have hnew :
          previous? key pos (xs ++ [x]) x = (xs.filter fun y => key y = key x).getLast? := by
        rw [previous?, earlier_append_of_le, earlier_of_forall_lt key pos hlast]
        intro z hz
        exact Nat.le_of_eq (congrArg pos (List.mem_singleton.1 hz).symm)
      rw [List.foldl_append, List.foldl_cons, List.foldl_nil, ih hxs, List.foldl_append,
        List.foldl_cons, List.foldl_nil, List.filterMap_append, track, get?_foldl_insert_empty]
      congr 2
      · apply List.filterMap_congr
        intro y hy
        rw [hold y hy]
      · rw [List.filterMap_cons, hnew, List.filterMap_nil, Option.map_map]
        cases (xs.filter fun y => key y = key x).getLast? <;> rfl

/-- Each element adds an entry or a report. -/
theorem length_reports (s : OrderedMap κ α × List ω) (xs : List β) :
    (xs.foldl (track key value report) s).2.length
        + (xs.foldl (track key value report) s).1.keys.length =
      s.2.length + s.1.keys.length + xs.length := by
  induction xs generalizing s with
  | nil => rfl
  | cons x xs ih =>
      have hstep : (track key value report s x).2.length
          + (track key value report s x).1.keys.length = s.2.length + s.1.keys.length + 1 := by
        rw [track, keys_insert, List.length_append]
        cases hget : s.1.get? (key x) with
        | none =>
            rw [if_neg (get?_eq_none_iff.1 hget), List.length_append]
            exact (Nat.add_assoc _ _ _).symm
        | some v =>
            rw [if_pos (mem_keys_of_get? hget)]
            exact Nat.add_right_comm _ _ _
      rw [List.foldl_cons, ih, hstep, List.length_cons]
      omega

end

-- ==================================================== what is left

section

variable {κ α : Type} [DecidableEq κ] {key : α → κ} {pos : α → Nat} {xs : List α}
  (hpos : xs.Pairwise fun x y => pos x < pos y)

/-- Elements are filed under their keys. -/
theorem key_of_mem_foldl_insert {e : κ × α}
    (he : e ∈ (xs.foldl (fun m x => m.insert (key x) x) empty).entries) : key e.2 = e.1 :=
  forall_entries_foldl_insert key id (List.forall_mem_nil fun e : κ × α => key e.2 = e.1)
    (fun _ _ => rfl) e he

theorem mem_filter_key {k : κ} {z : α} :
    z ∈ (xs.filter fun z => key z = k) ↔ z ∈ xs ∧ key z = k := by
  rw [List.mem_filter, decide_eq_true_iff]

theorem count_map_key (k : κ) : (xs.map key).count k = (xs.filter fun z => key z = k).length := by
  rw [List.count, List.countP_map, List.countP_eq_length_filter]
  rfl

include hpos

/-- What is left is the last element of each key. -/
theorem mem_values_foldl_insert_iff {x : α} :
    x ∈ (xs.foldl (fun m x => m.insert (key x) x) empty).values ↔
      x ∈ xs ∧ ∀ y ∈ xs, key y = key x → pos y ≤ pos x := by
  constructor
  · intro h
    obtain ⟨e, he, rfl⟩ := List.mem_map.1 h
    obtain ⟨x, hx, hk, hvalue, hlast⟩ :=
      exists_last_of_get? key id pos hpos (get?_eq_some_iff.2 he)
    have hvalue : x = e.2 := hvalue
    subst hvalue
    exact ⟨hx, fun y hy hkey => hlast y hy (hkey.trans hk)⟩
  · rintro ⟨hx, hlast⟩
    have hkey : key x ∈ (xs.foldl (fun m x => m.insert (key x) x) empty).keys :=
      (mem_keys_foldl_insert key id).2 (Or.inr (List.mem_map_of_mem hx))
    cases hget : (xs.foldl (fun m x => m.insert (key x) x) empty).get? (key x) with
    | none => exact absurd hkey (get?_eq_none_iff.1 hget)
    | some y =>
        obtain ⟨y, hy, hk, rfl, hafter⟩ := exists_last_of_get? key id pos hpos hget
        have heq : x = y :=
          eq_of_pos_eq pos hpos hx hy (Nat.le_antisymm (hafter x hx rfl) (hlast y hy hk))
        rw [heq]
        exact mem_values_of_get? hget

/-- It stands in the order of the first elements of the keys. -/
theorem pairwise_values_foldl_insert :
    (xs.foldl (fun m x => m.insert (key x) x) empty).values.Pairwise fun x y =>
      firstPos key pos (key x) xs < firstPos key pos (key y) xs := by
  have hkeys := pairwise_keys_foldl_insert key id pos hpos
  rw [keys, List.pairwise_map] at hkeys
  rw [values, List.pairwise_map]
  refine hkeys.imp_of_mem ?_
  intro e e' he he' hlt
  rwa [key_of_mem_foldl_insert he, key_of_mem_foldl_insert he']

-- ==================================================== first and nearest

/-- The nearest element in front stands behind all others in front. -/
theorem le_of_previous?_eq_some {x y z : α} (h : previous? key pos xs x = some y)
    (hz : z ∈ xs) (hk : key z = key x) (hlt : pos z < pos x) : pos z ≤ pos y := by
  obtain ⟨front, hfront⟩ := List.getLast?_eq_some_iff.1 h
  have hmem : z ∈ front ++ [y] := by
    rw [← hfront]
    exact (mem_earlier key pos).2 ⟨hz, hk, hlt⟩
  have hpairs : (front ++ [y]).Pairwise fun x y => pos x < pos y := by
    rw [← hfront]
    exact hpos.filter _
  rcases List.mem_append.1 hmem with hmem | hmem
  · exact Nat.le_of_lt ((List.pairwise_append.1 hpairs).2.2 z hmem y (List.mem_singleton.2 rfl))
  · exact Nat.le_of_eq (congrArg pos (List.mem_singleton.1 hmem))

/-- The third element of a key has a nearest element in front, which is
not the first one. -/
theorem count_le_two_of_previous?
    (h : ∀ x ∈ xs, ∀ y, previous? key pos xs x = some y →
      (xs.filter fun z => key z = key x).head? = some y) (k : κ) : (xs.map key).count k ≤ 2 := by
  have hpairs : (xs.filter fun z => key z = k).Pairwise fun x y => pos x < pos y := hpos.filter _
  rw [count_map_key]
  match hk : xs.filter fun z => key z = k with
  | [] | [_] | [_, _] => simp
  | a :: b :: c :: rest =>
      exfalso
      rw [hk] at hpairs
      obtain ⟨ha, hpairs⟩ := List.pairwise_cons.1 hpairs
      obtain ⟨hb, -⟩ := List.pairwise_cons.1 hpairs
      have hab : pos a < pos b := ha b List.mem_cons_self
      have hbc : pos b < pos c := hb c List.mem_cons_self
      obtain ⟨hbmem, hbk⟩ := mem_filter_key.1 (show b ∈ xs.filter _ by rw [hk]; simp)
      obtain ⟨hcmem, hck⟩ := mem_filter_key.1 (show c ∈ xs.filter _ by rw [hk]; simp)
      have hbck : key b = key c := hbk.trans hck.symm
      obtain ⟨y, hy⟩ := Option.isSome_iff_exists.1
        ((isSome_previous?_iff key pos).2 ⟨b, hbmem, hbck, hbc⟩)
      have hfirst := h c hcmem y hy
      rw [hck, hk] at hfirst
      have hle := le_of_previous?_eq_some hpos hy hbmem hbck hbc
      rw [← show a = y from Option.some.inj hfirst] at hle
      omega

/-- Where a key has two elements, the nearest one in front of the second
is the first. -/
theorem head?_eq_of_previous? {x y : α} (hcount : (xs.map key).count (key x) ≤ 2) (hx : x ∈ xs)
    (hy : previous? key pos xs x = some y) :
    (xs.filter fun z => key z = key x).head? = some y := by
  obtain ⟨hyxs, hyk, hlt⟩ := (mem_earlier key pos).1 (List.mem_of_getLast? hy)
  have hpairs : (xs.filter fun z => key z = key x).Pairwise fun x y => pos x < pos y :=
    hpos.filter _
  have hxmem : x ∈ xs.filter fun z => key z = key x := mem_filter_key.2 ⟨hx, rfl⟩
  have hymem : y ∈ xs.filter fun z => key z = key x := mem_filter_key.2 ⟨hyxs, hyk⟩
  rw [count_map_key] at hcount
  generalize (xs.filter fun z => key z = key x) = zs at hcount hpairs hxmem hymem
  match zs with
  | [] => cases hxmem
  | [a] =>
      rw [List.mem_singleton.1 hxmem, List.mem_singleton.1 hymem] at hlt
      omega
  | [a, b] =>
      rcases List.mem_pair.1 hymem with rfl | rfl
      · rfl
      · have hab := (List.pairwise_cons.1 hpairs).1 y (by simp)
        rcases List.mem_pair.1 hxmem with rfl | rfl <;> omega
  | a :: b :: c :: rest => simp at hcount

/-- The nearest element in front is the first one for all elements that
have one, exactly when no key has three elements. -/
theorem previous?_eq_head?_iff :
    (∀ x ∈ xs, ∀ y, previous? key pos xs x = some y →
        (xs.filter fun z => key z = key x).head? = some y) ↔
      ∀ k, (xs.map key).count k ≤ 2 :=
  ⟨count_le_two_of_previous? hpos, fun h x hx _ => head?_eq_of_previous? hpos (h (key x)) hx⟩

end

end OrderedMap

end SchemaAtlas
