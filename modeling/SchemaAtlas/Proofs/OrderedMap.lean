/-
More laws of ordered maps. The value read at a key is the one its entry
holds, and there is only one such entry; a write at a new key, or a run
of writes at distinct new keys, appends.

- `OrderedMap.get?_eq_some_iff`: reading is membership in the entries.
- `OrderedMap.entries_foldl_insert`: writes at new keys append.
- `OrderedMap.forall_entries_foldl_insert`, `mem_keys_foldl_insert`: what
  a run of writes at any keys keeps and adds.
- `OrderedMap.merge`: one map written over another, entry by entry. The
  last write at a key wins and the first one gives it its place.
- `foldl_insert_eq_merge`: a run of writes is one merge.
- `exists_last_of_get?`, `pairwise_keys_foldl_insert`: writes into an
  empty map leave the last value of each key in the place of the first.
- `OrderedMap.Matches`: maps with the same keys and related values, such
  as writes of related values at the same keys lead to.
- `OrderedMap.get?_foldl_insert_append`: later writes are kept.
-/
import Mathlib.Data.List.Forall2
import Mathlib.Data.List.Induction
import Mathlib.Data.List.Nodup
import SchemaAtlas.OrderedMap

namespace SchemaAtlas

namespace OrderedMap

variable {κ α β : Type} [DecidableEq κ]

-- ==================================================== reading

theorem find?_eq_some_iff {es : List (κ × α)} (h : (es.map Prod.fst).Nodup) {k : κ} {v : α} :
    (es.find? fun e => e.1 = k).map Prod.snd = some v ↔ (k, v) ∈ es := by
  induction es with
  | nil => simp
  | cons e es ih =>
      obtain ⟨hnew, hes⟩ := List.nodup_cons.1 h
      obtain ⟨k', v'⟩ := e
      by_cases hk : k' = k
      · subst hk
        have hlater : (k', v) ∉ es := fun hm =>
          hnew (List.mem_map.2 ⟨(k', v), hm, rfl⟩)
        simp [hlater, eq_comm]
      · have hk' : k ≠ k' := fun e => hk e.symm
        simp [hk, hk', ih hes]

/-- The value read at a key is that of its entry. -/
theorem get?_eq_some_iff {m : OrderedMap κ α} {k : κ} {v : α} :
    m.get? k = some v ↔ (k, v) ∈ m.entries :=
  find?_eq_some_iff m.nodup_keys

/-- Nothing is read where there is no key. -/
theorem get?_eq_none_iff {m : OrderedMap κ α} {k : κ} : m.get? k = none ↔ k ∉ m.keys := by
  rw [get?, Option.map_eq_none_iff, List.find?_eq_none, keys, List.mem_map]
  constructor
  · rintro h ⟨e, he, hk⟩
    exact h e he (by simpa using hk)
  · intro h e he hk
    exact h ⟨e, he, by simpa using hk⟩

theorem mem_keys_of_get? {m : OrderedMap κ α} {k : κ} {v : α} (h : m.get? k = some v) :
    k ∈ m.keys :=
  List.mem_map.2 ⟨(k, v), get?_eq_some_iff.1 h, rfl⟩

-- ==================================================== new keys

theorem put_of_not_mem {k : κ} {v : α} {es : List (κ × α)} (h : k ∉ es.map Prod.fst) :
    put k v es = es ++ [(k, v)] := by
  induction es with
  | nil => rfl
  | cons e es ih =>
      obtain ⟨he, hes⟩ : k ≠ e.1 ∧ k ∉ es.map Prod.fst := by simpa using h
      rw [put, if_neg (Ne.symm he), ih hes, List.cons_append]

section

variable {m : OrderedMap κ α} {k : κ} {ks : List κ} (h : (m.keys ++ k :: ks).Nodup)
include h

omit [DecidableEq κ] in
/-- The first of distinct new keys is new. -/
theorem not_mem_keys_of_nodup : k ∉ m.keys := by
  intro hk
  exact (List.nodup_append.1 h).2.2 k hk k List.mem_cons_self rfl

/-- The others are still new after a write at the first. -/
theorem nodup_keys_insert (v : α) : ((m.insert k v).keys ++ ks).Nodup := by
  rw [keys_insert, if_neg (not_mem_keys_of_nodup h), List.append_assoc]
  exact h

end

/-- Writes at distinct new keys append their entries. -/
theorem entries_foldl_insert (key : β → κ) (value : β → α) {m : OrderedMap κ α} {xs : List β}
    (h : (m.keys ++ xs.map key).Nodup) :
    (xs.foldl (fun m x => m.insert (key x) (value x)) m).entries =
      m.entries ++ xs.map fun x => (key x, value x) := by
  induction xs generalizing m with
  | nil => simp
  | cons x xs ih =>
      have hentries : (m.insert (key x) (value x)).entries = m.entries ++ [(key x, value x)] :=
        put_of_not_mem (not_mem_keys_of_nodup h)
      rw [List.foldl_cons, ih (nodup_keys_insert h (value x)), hentries, List.append_assoc]
      rfl

-- ==================================================== any keys

/-- An entry after a write is the one written or one from before. -/
theorem mem_put {k : κ} {v : α} {es : List (κ × α)} {e : κ × α} (h : e ∈ put k v es) :
    e = (k, v) ∨ e ∈ es := by
  induction es with
  | nil => exact Or.inl (List.mem_singleton.1 h)
  | cons x es ih =>
      unfold put at h
      split at h
      · exact (List.mem_cons.1 h).imp_right (List.mem_cons_of_mem x)
      · rcases List.mem_cons.1 h with rfl | h
        · exact Or.inr List.mem_cons_self
        · exact (ih h).imp_right (List.mem_cons_of_mem x)

/-- What holds of every entry and of all that is written holds after the
writes. -/
theorem forall_entries_foldl_insert {P : κ × α → Prop} (key : β → κ) (value : β → α)
    {m : OrderedMap κ α} {xs : List β} (hm : ∀ e ∈ m.entries, P e)
    (hxs : ∀ x ∈ xs, P (key x, value x)) :
    ∀ e ∈ (xs.foldl (fun m x => m.insert (key x) (value x)) m).entries, P e := by
  refine List.foldlRecOn (motive := fun m : OrderedMap κ α => ∀ e ∈ m.entries, P e) xs _ hm ?_
  intro m hm x hx e he
  rcases mem_put he with rfl | he
  · exact hxs x hx
  · exact hm e he

theorem mem_keys_foldl_insert (key : β → κ) (value : β → α) {m : OrderedMap κ α} {xs : List β}
    {k : κ} :
    k ∈ (xs.foldl (fun m x => m.insert (key x) (value x)) m).keys ↔
      k ∈ m.keys ∨ k ∈ xs.map key := by
  induction xs generalizing m with
  | nil => simp
  | cons x xs ih =>
      rw [List.foldl_cons, ih, mem_keys_insert, List.map_cons, List.mem_cons, or_comm (a := k = key x),
        or_assoc]

-- ==================================================== equality

omit [DecidableEq κ] in
theorem entries_injective {m n : OrderedMap κ α} (h : m.entries = n.entries) : m = n := by
  cases m
  cases n
  cases h
  rfl

/-- Maps with the same keys in the same order and the same values at
them are equal. -/
theorem ext_get? {m n : OrderedMap κ α} (hkeys : m.keys = n.keys)
    (hget : ∀ k, m.get? k = n.get? k) : m = n := by
  apply entries_injective
  have hlength : m.entries.length = n.entries.length := by
    have h := congrArg List.length hkeys
    rwa [keys, keys, List.length_map, List.length_map] at h
  apply List.ext_getElem hlength
  intro i hm hn
  have hkey : m.entries[i].1 = n.entries[i].1 := by
    have h := List.getElem_of_eq hkeys (i := i) (by rw [keys, List.length_map]; exact hm)
    simpa [keys] using h
  have hm' : m.get? m.entries[i].1 = some m.entries[i].2 :=
    get?_eq_some_iff.2 (List.getElem_mem hm)
  have hn' : n.get? n.entries[i].1 = some n.entries[i].2 :=
    get?_eq_some_iff.2 (List.getElem_mem hn)
  rw [hget, hkey, hn'] at hm'
  exact Prod.ext hkey (Option.some.inj hm').symm

-- ==================================================== merging

/-- The map `m` with every entry of `n` written into it. -/
def merge (m n : OrderedMap κ α) : OrderedMap κ α :=
  n.entries.foldl (fun m e => m.insert e.1 e.2) m

theorem get?_foldl_insert {es : List (κ × α)} (hes : (es.map Prod.fst).Nodup)
    (m : OrderedMap κ α) (k : κ) :
    (es.foldl (fun m e => m.insert e.1 e.2) m).get? k =
      ((es.find? fun e => e.1 = k).map Prod.snd).or (m.get? k) := by
  induction es generalizing m with
  | nil => rfl
  | cons e es ih =>
      obtain ⟨hnew, hes⟩ := List.nodup_cons.1 hes
      rw [List.foldl_cons, ih hes, get?_insert, List.find?_cons]
      by_cases hk : e.1 = k
      · have hlater : es.find? (fun e => e.1 = k) = none := by
          rw [List.find?_eq_none]
          intro x hx hkx
          apply hnew
          rw [hk, ← of_decide_eq_true hkx]
          exact List.mem_map_of_mem hx
        simp [hk, hlater]
      · simp [hk]

/-- The last write wins. -/
theorem get?_merge (m n : OrderedMap κ α) (k : κ) :
    (m.merge n).get? k = (n.get? k).or (m.get? k) :=
  get?_foldl_insert n.nodup_keys m k

theorem keys_foldl_insert {es : List (κ × α)} (hes : (es.map Prod.fst).Nodup)
    (m : OrderedMap κ α) :
    (es.foldl (fun m e => m.insert e.1 e.2) m).keys =
      m.keys ++ (es.map Prod.fst).filter fun k => k ∉ m.keys := by
  induction es generalizing m with
  | nil => simp
  | cons e es ih =>
      obtain ⟨hnew, hes⟩ := List.nodup_cons.1 hes
      rw [List.foldl_cons, ih hes, keys_insert, List.map_cons, List.filter_cons]
      by_cases he : e.1 ∈ m.keys
      · rw [if_pos he, if_neg (by simpa using he)]
      · rw [if_neg he, if_pos (by simpa using he), List.append_assoc, List.singleton_append]
        congr 2
        apply List.filter_congr
        intro k hk
        have hne : k ≠ e.1 := fun h => hnew (h ▸ hk)
        simp [hne]

/-- New keys come behind those that are there, in their own order. -/
theorem keys_merge (m n : OrderedMap κ α) :
    (m.merge n).keys = m.keys ++ n.keys.filter fun k => k ∉ m.keys :=
  keys_foldl_insert n.nodup_keys m

/-- A write before the merge is a write behind it. -/
theorem merge_insert (m n : OrderedMap κ α) (k : κ) (v : α) :
    m.merge (n.insert k v) = (m.merge n).insert k v := by
  apply ext_get?
  · rw [keys_merge, keys_insert, keys_insert, keys_merge]
    by_cases hn : k ∈ n.keys
    · rw [if_pos hn, if_pos]
      by_cases hm : k ∈ m.keys
      · exact List.mem_append_left _ hm
      · exact List.mem_append_right _ (List.mem_filter.2 ⟨hn, by simpa using hm⟩)
    · rw [if_neg hn, List.filter_append]
      by_cases hm : k ∈ m.keys <;> simp [hn, hm]
  · intro k'
    rw [get?_merge, get?_insert, get?_insert, get?_merge]
    by_cases hk : k = k' <;> simp [hk]

/-- Adjusting a written value is writing the adjusted one. -/
theorem adjust_insert (m : OrderedMap κ α) (f : κ → α → α) (k : κ) (v : α) :
    (m.insert k v).adjust f = (m.adjust f).insert k (f k v) := by
  apply ext_get?
  · rw [keys_adjust, keys_insert, keys_insert, keys_adjust]
  · intro k'
    rw [get?_adjust, get?_insert, get?_insert, get?_adjust]
    by_cases hk : k = k' <;> simp [hk]

/-- A run of writes of changed values into a map is the merge with what
the run writes into an empty map, changed. -/
theorem foldl_insert_eq_merge (key : β → κ) (f : β → β) (xs : List β) (m : OrderedMap κ β) :
    xs.foldl (fun m x => m.insert (key x) (f x)) m =
      m.merge ((xs.foldl (fun m x => m.insert (key x) x) empty).adjust fun _ => f) := by
  show xs.foldl (fun m x => m.insert (key x) (f x)) (m.merge (empty.adjust fun _ => f)) = _
  apply List.foldl_hom fun n : OrderedMap κ β => m.merge (n.adjust fun _ => f)
  intro n x
  rw [adjust_insert, merge_insert]

-- ==================================================== positions

section

variable (key : β → κ) (value : β → α) (pos : β → Nat) {xs : List β}

/-- The position of the first element with the given key. -/
def firstPos (k : κ) (xs : List β) : Nat :=
  ((xs.find? fun x => key x = k).map pos).getD 0

theorem firstPos_append_of_mem {k : κ} (h : k ∈ xs.map key) (ys : List β) :
    firstPos key pos k (xs ++ ys) = firstPos key pos k xs := by
  obtain ⟨x, hx, hk⟩ := List.mem_map.1 h
  have hsome : (xs.find? fun x => key x = k).isSome := by
    rw [List.find?_isSome]
    exact ⟨x, hx, decide_eq_true hk⟩
  rw [firstPos, List.find?_append, Option.or_of_isSome hsome]
  rfl

theorem firstPos_append_singleton {x : β} (h : key x ∉ xs.map key) :
    firstPos key pos (key x) (xs ++ [x]) = pos x := by
  have hnone : (xs.find? fun y => key y = key x) = none := by
    rw [List.find?_eq_none]
    intro y hy hk
    exact h (List.mem_map.2 ⟨y, hy, of_decide_eq_true hk⟩)
  rw [firstPos, List.find?_append, hnone]
  simp

theorem exists_firstPos {k : κ} (h : k ∈ xs.map key) :
    ∃ x ∈ xs, key x = k ∧ firstPos key pos k xs = pos x := by
  obtain ⟨x, hx, hk⟩ := List.mem_map.1 h
  cases hfind : xs.find? fun x => key x = k with
  | none => exact absurd (decide_eq_true hk) (List.find?_eq_none.1 hfind x hx)
  | some y =>
      refine ⟨y, List.mem_of_find?_eq_some hfind, ?_, by rw [firstPos, hfind]; rfl⟩
      simpa using List.find?_some hfind

variable (hpos : xs.Pairwise fun x y => pos x < pos y)
include hpos

omit [DecidableEq κ] in
/-- What holds of all elements and later ones holds by position. -/
theorem rel_of_pos_lt {P : β → β → Prop} (hP : xs.Pairwise P) {x y : β} (hx : x ∈ xs)
    (hy : y ∈ xs) (h : pos x < pos y) : P x y := by
  induction xs with
  | nil => cases hx
  | cons z xs ih =>
      obtain ⟨hz, hxs⟩ := List.pairwise_cons.1 hpos
      obtain ⟨hPz, hPxs⟩ := List.pairwise_cons.1 hP
      rcases List.mem_cons.1 hx with rfl | hx'
      · rcases List.mem_cons.1 hy with rfl | hy'
        · omega
        · exact hPz y hy'
      · rcases List.mem_cons.1 hy with rfl | hy'
        · have hlt := hz x hx'
          omega
        · exact ih hxs hPxs hx' hy'

omit [DecidableEq κ] in
theorem eq_of_pos_eq {x y : β} (hx : x ∈ xs) (hy : y ∈ xs) (h : pos x = pos y) : x = y := by
  have hnodup : (xs.map pos).Nodup := List.pairwise_map.2 (hpos.imp Nat.ne_of_lt)
  exact List.inj_on_of_nodup_map hnodup hx hy h

/-- The value left at a key is that of its last element. -/
theorem exists_last_of_get? {k : κ} {a : α}
    (h : (xs.foldl (fun m x => m.insert (key x) (value x)) empty).get? k = some a) :
    ∃ x ∈ xs, key x = k ∧ value x = a ∧ ∀ y ∈ xs, key y = k → pos y ≤ pos x := by
  induction xs using List.reverseRecOn with
  | nil => cases h
  | append_singleton xs x ih =>
      obtain ⟨hxs, -, hx⟩ := List.pairwise_append.1 hpos
      rw [List.foldl_append, List.foldl_cons, List.foldl_nil, get?_insert] at h
      by_cases hk : key x = k
      · rw [if_pos hk] at h
        refine ⟨x, by simp, hk, Option.some.inj h, ?_⟩
        intro y hy _
        rcases List.mem_append.1 hy with hy | hy
        · exact Nat.le_of_lt (hx y hy x (List.mem_singleton.2 rfl))
        · exact Nat.le_of_eq (congrArg pos (List.mem_singleton.1 hy))
      · rw [if_neg hk] at h
        obtain ⟨z, hz, hzk, hza, hlast⟩ := ih hxs h
        refine ⟨z, List.mem_append_left _ hz, hzk, hza, ?_⟩
        intro y hy hyk
        rcases List.mem_append.1 hy with hy | hy
        · exact hlast y hy hyk
        · rw [List.mem_singleton.1 hy] at hyk
          exact absurd hyk hk

/-- The keys stand in the order of their first elements. -/
theorem pairwise_keys_foldl_insert :
    (xs.foldl (fun m x => m.insert (key x) (value x)) empty).keys.Pairwise fun k l =>
      firstPos key pos k xs < firstPos key pos l xs := by
  induction xs using List.reverseRecOn with
  | nil => exact .nil
  | append_singleton xs x ih =>
      obtain ⟨hxs, -, hx⟩ := List.pairwise_append.1 hpos
      let m := xs.foldl (fun m x => m.insert (key x) (value x)) (empty : OrderedMap κ α)
      have hmem : ∀ {k}, k ∈ m.keys ↔ k ∈ xs.map key := by
        intro k
        rw [mem_keys_foldl_insert]
        simp
      have hold : m.keys.Pairwise fun k l =>
          firstPos key pos k (xs ++ [x]) < firstPos key pos l (xs ++ [x]) := by
        refine (ih hxs).imp_of_mem ?_
        intro k l hk hl hlt
        rwa [firstPos_append_of_mem key pos (hmem.1 hk), firstPos_append_of_mem key pos (hmem.1 hl)]
      rw [List.foldl_append, List.foldl_cons, List.foldl_nil, keys_insert]
      by_cases hknown : key x ∈ m.keys
      · rw [if_pos hknown]
        exact hold
      · rw [if_neg hknown]
        refine List.pairwise_append.2 ⟨hold, List.pairwise_singleton _ _, ?_⟩
        intro k hk l hl
        obtain ⟨y, hy, -, hfirst⟩ := exists_firstPos key pos (hmem.1 hk)
        rw [List.mem_singleton.1 hl, firstPos_append_of_mem key pos (hmem.1 hk), hfirst,
          firstPos_append_singleton key pos fun h => hknown (hmem.2 h)]
        exact hx y hy x (List.mem_singleton.2 rfl)

end

-- ==================================================== matching maps

/-- The maps have the same keys in the same order, with related values. -/
def Matches (R : α → β → Prop) (m : OrderedMap κ α) (n : OrderedMap κ β) : Prop :=
  List.Forall₂ (fun e e' => e'.1 = e.1 ∧ R e.2 e'.2) m.entries n.entries

theorem forall₂_put {R : α → β → Prop} {es : List (κ × α)} {es' : List (κ × β)}
    (h : List.Forall₂ (fun e e' => e'.1 = e.1 ∧ R e.2 e'.2) es es') (k : κ) {v : α} {w : β}
    (hv : R v w) :
    List.Forall₂ (fun e e' => e'.1 = e.1 ∧ R e.2 e'.2) (put k v es) (put k w es') := by
  induction h with
  | nil => exact .cons ⟨rfl, hv⟩ .nil
  | @cons e e' es es' he hes ih =>
      rw [put, put, he.1]
      by_cases hk : e.1 = k
      · rw [if_pos hk, if_pos hk]
        exact .cons ⟨rfl, hv⟩ hes
      · rw [if_neg hk, if_neg hk]
        exact .cons he ih

theorem find?_forall₂ {R : α → β → Prop} {es : List (κ × α)} {es' : List (κ × β)}
    (h : List.Forall₂ (fun e e' => e'.1 = e.1 ∧ R e.2 e'.2) es es') (k : κ) :
    Option.Rel R ((es.find? fun e => e.1 = k).map Prod.snd)
      ((es'.find? fun e => e.1 = k).map Prod.snd) := by
  induction h with
  | nil => exact .none
  | @cons e e' es es' he _ ih =>
      rw [List.find?_cons, List.find?_cons, he.1]
      by_cases hk : e.1 = k
      · rw [decide_eq_true hk]
        exact .some he.2
      · rw [decide_eq_false hk]
        exact ih

namespace Matches

variable {R : α → β → Prop} {m : OrderedMap κ α} {n : OrderedMap κ β}

theorem insert (h : Matches R m n) (k : κ) {v : α} {w : β} (hv : R v w) :
    Matches R (m.insert k v) (n.insert k w) :=
  forall₂_put h k hv

/-- Writes of related values at the same keys. -/
theorem foldl_insert {γ δ : Type} {xs : List γ} {ys : List δ} {key : γ → κ} {value : γ → α}
    {key' : δ → κ} {value' : δ → β} (h : Matches R m n)
    (hxs : List.Forall₂ (fun x y => key' y = key x ∧ R (value x) (value' y)) xs ys) :
    Matches R (xs.foldl (fun m x => m.insert (key x) (value x)) m)
      (ys.foldl (fun n y => n.insert (key' y) (value' y)) n) := by
  induction hxs generalizing m n with
  | nil => exact h
  | cons hxy _ ih =>
      rw [List.foldl_cons, List.foldl_cons, hxy.1]
      exact ih (h.insert _ hxy.2)

theorem get? (h : Matches R m n) (k : κ) : Option.Rel R (m.get? k) (n.get? k) :=
  find?_forall₂ h k

omit [DecidableEq κ] in
theorem values (h : Matches R m n) : List.Forall₂ R m.values n.values := by
  rw [OrderedMap.values, OrderedMap.values, List.forall₂_map_left_iff, List.forall₂_map_right_iff]
  exact h.imp fun _ _ he => he.2

omit [DecidableEq κ] in
theorem keys_eq (h : Matches R m n) : n.keys = m.keys := by
  have hkeys : List.Forall₂ Eq n.keys m.keys := by
    rw [keys, keys, List.forall₂_map_left_iff, List.forall₂_map_right_iff]
    exact h.flip.imp fun _ _ he => he.1
  exact List.forall₂_eq_eq_eq ▸ hkeys

end Matches

/-- Later writes are kept: what writes at some keys leave there, related
writes at the same keys leave there behind any others. -/
theorem get?_foldl_insert_append {R : α → α → Prop} {key : α → κ} {xs ys : List α}
    (h : List.Forall₂ (fun x y => key y = key x ∧ R x y) xs ys) (front : List α) {k : κ} {x : α}
    (hx : (xs.foldl (fun m x => m.insert (key x) x) empty).get? k = some x) :
    ∃ y, ((front ++ ys).foldl (fun m x => m.insert (key x) x) empty).get? k = some y ∧ R x y := by
  have hmatches : Matches R (xs.foldl (fun m x => m.insert (key x) x) empty)
      (ys.foldl (fun m x => m.insert (key x) x) empty) :=
    Matches.foldl_insert (m := empty) (n := empty) List.Forall₂.nil h
  have hget := hmatches.get? k
  have hmerge := foldl_insert_eq_merge key id ys
    (front.foldl (fun m x => m.insert (key x) x) empty)
  rw [hx] at hget
  generalize hy : (ys.foldl (fun m x => m.insert (key x) x) empty).get? k = y at hget
  cases hget with
  | @some x y hxy =>
      refine ⟨y, ?_, hxy⟩
      rw [List.foldl_append]
      refine Eq.trans (congrArg (OrderedMap.get? · k) hmerge) ?_
      rw [get?_merge, get?_adjust, hy]
      rfl

end OrderedMap

end SchemaAtlas
