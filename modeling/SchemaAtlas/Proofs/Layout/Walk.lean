/-
The walk that ranks schemas, seen from its end. Ids leave the queue in
the order in which they were met, so the ranks it returns are those of
one pass over all the ids met (`walk_spec`): each of them, with the rank
it has by then, raises its successors. The queue is gone from that
description, and what the walk does to ranks is a matter of folding
`passOn` over a list.

Ranks never fall in such a pass (`rankIn_le_foldl`). So an id ends up
above the rank that any of its predecessors had when it was taken
(`rankIn_lt_foldl`), which need not be the rank that predecessor ends up
with.

- `walk_spec`: the walk as one pass over the ids met.
- `rankIn_passOn`: what taking an id from the queue does to a rank.
- `mem_met`: whatever a met id leads to is met.
-/
import SchemaAtlas.Layout.Ranking
import SchemaAtlas.Proofs.Graph.Adjacency

namespace SchemaAtlas

open Relation

namespace Ranking

variable {a : Adjacency}

-- ==================================================== ranks

/-- The rank of an id; zero for an unknown one. -/
def rankIn (ranks : OrderedMap String Nat) (id : String) : Nat :=
  (ranks.get? id).getD 0

/-- The ranks after `id` is taken from the queue. -/
def passOn (a : Adjacency) (ranks : OrderedMap String Nat) (id : String) :
    OrderedMap String Nat :=
  raise ranks (rankIn ranks id + 1) (a.successors id)

@[simp] theorem keys_passOn (ranks : OrderedMap String Nat) (id : String) :
    (passOn a ranks id).keys = ranks.keys :=
  OrderedMap.keys_adjust ranks _

/-- The successors that are schemas are raised, the others stay. -/
theorem rankIn_passOn (ranks : OrderedMap String Nat) (id v : String) :
    rankIn (passOn a ranks id) v =
      if v ∈ ranks.keys ∧ v ∈ a.successors id then max (rankIn ranks id + 1) (rankIn ranks v)
      else rankIn ranks v := by
  unfold passOn raise
  show ((OrderedMap.adjust ranks _).get? v).getD 0 = _
  rw [OrderedMap.get?_adjust]
  cases hget : ranks.get? v with
  | none =>
      have hkeys : v ∉ ranks.keys := OrderedMap.get?_eq_none_iff.1 hget
      rw [if_neg fun h => hkeys h.1]
      simp [rankIn, hget]
  | some n =>
      have hkeys : v ∈ ranks.keys := OrderedMap.mem_keys_of_get? hget
      have hrank : rankIn ranks v = n := by simp [rankIn, hget]
      by_cases hv : v ∈ a.successors id
      · simp [hkeys, hv, hrank, Nat.max_comm]
      · simp [hv, hrank]

theorem rankIn_passOn_of_not_mem {ranks : OrderedMap String Nat} {id v : String}
    (h : v ∉ a.successors id) : rankIn (passOn a ranks id) v = rankIn ranks v := by
  rw [rankIn_passOn, if_neg fun hv => h hv.2]

theorem rankIn_le_passOn (ranks : OrderedMap String Nat) (id v : String) :
    rankIn ranks v ≤ rankIn (passOn a ranks id) v := by
  rw [rankIn_passOn]
  split
  · exact Nat.le_max_right _ _
  · exact Nat.le_refl _

-- ==================================================== passes

section

variable (ranks : OrderedMap String Nat) (us : List String) (v : String)

@[simp] theorem keys_foldl_passOn : (us.foldl (passOn a) ranks).keys = ranks.keys :=
  List.foldlRecOn (motive := fun m : OrderedMap String Nat => m.keys = ranks.keys) us _ rfl
    fun m h u _ => (keys_passOn m u).trans h

/-- Ranks never fall. -/
theorem rankIn_le_foldl : rankIn ranks v ≤ rankIn (us.foldl (passOn a) ranks) v :=
  List.foldlRecOn (motive := fun m => rankIn ranks v ≤ rankIn m v) us _ (Nat.le_refl _)
    fun m h u _ => Nat.le_trans h (rankIn_le_passOn m u v)

/-- Ids that do not lead to another leave its rank alone. -/
theorem rankIn_foldl_of_not_mem (h : ∀ u ∈ us, v ∉ a.successors u) :
    rankIn (us.foldl (passOn a) ranks) v = rankIn ranks v :=
  List.foldlRecOn (motive := fun m => rankIn m v = rankIn ranks v) us _ rfl
    fun _ hm u hu => (rankIn_passOn_of_not_mem (h u hu)).trans hm

end

/-- A schema ends up above the rank that an id leading to it had when it
was taken from the queue. -/
theorem rankIn_lt_foldl {ranks : OrderedMap String Nat} {u v : String} (us vs : List String)
    (hv : v ∈ ranks.keys) (huv : v ∈ a.successors u) :
    rankIn (us.foldl (passOn a) ranks) u <
      rankIn ((us ++ u :: vs).foldl (passOn a) ranks) v := by
  rw [List.foldl_append, List.foldl_cons]
  let taken := us.foldl (passOn a) ranks
  have hkeys : v ∈ taken.keys := by
    rw [keys_foldl_passOn]
    exact hv
  have hraised : rankIn taken u + 1 ≤ rankIn (passOn a taken u) v := by
    rw [rankIn_passOn, if_pos ⟨hkeys, huv⟩]
    exact Nat.le_max_left _ _
  have hrest : rankIn (passOn a taken u) v ≤ rankIn (vs.foldl (passOn a) (passOn a taken u)) v :=
    rankIn_le_foldl _ vs v
  show rankIn taken u < rankIn (vs.foldl (passOn a) (passOn a taken u)) v
  omega

-- ==================================================== new ids

theorem mem_fresh {met targets : List String} {v : String} :
    v ∈ fresh met targets ↔ v ∈ targets ∧ v ∉ met := by
  simp [fresh]

theorem nodup_append_fresh {met : List String} (h : met.Nodup) (targets : List String) :
    (met ++ fresh met targets).Nodup := by
  refine List.nodup_append.2 ⟨h, nodup_eraseDups _, ?_⟩
  intro u hu v hv huv
  exact (mem_fresh.1 hv).2 (huv ▸ hu)

-- ==================================================== the walk

/-- The walk is one pass over what is in the queue and what it meets
later. It meets nothing twice, and everything that the ids it takes lead
to. -/
theorem walk_spec (ranks : OrderedMap String Nat) (met queue : List String) :
    ∃ later, walk a ranks met queue =
        ((queue ++ later).foldl (passOn a) ranks, met ++ later)
      ∧ (met.Nodup → (met ++ later).Nodup)
      ∧ ∀ u ∈ queue ++ later, ∀ v ∈ a.successors u, v ∈ met ++ later := by
  fun_induction walk a ranks met queue with
  | case1 ranks met => exact ⟨[], by simp, by simp, by simp⟩
  | case2 ranks met id queue targets new ih =>
      obtain ⟨later, hwalk, hnodup, hclosed⟩ := ih
      have hqueue : queue ++ (new ++ later) = (queue ++ new) ++ later := by
        rw [List.append_assoc]
      have hmet : met ++ (new ++ later) = (met ++ new) ++ later := by
        rw [List.append_assoc]
      refine ⟨new ++ later, ?_, ?_, ?_⟩
      · rw [hwalk, List.cons_append, List.foldl_cons, hqueue, hmet]
        rfl
      · intro h
        rw [hmet]
        exact hnodup (nodup_append_fresh h targets)
      · intro u hu v hv
        rw [hmet]
        rw [List.cons_append, hqueue] at hu
        rcases List.mem_cons.1 hu with rfl | hu
        · -- a successor was met before, or it is met now
          apply List.mem_append_left
          by_cases h : v ∈ met
          · exact List.mem_append_left _ h
          · exact List.mem_append_right _ (mem_fresh.2 ⟨hv, h⟩)
        · exact hclosed u hu v hv

-- ==================================================== the ranking

section

variable (a)

/-- The schemas in the order in which the walk meets them. Ids that are
no schemas are among them where relationships lead there. -/
def met : List String :=
  (walk a (.ofKeys a.ids fun _ => 0) a.roots a.roots).2

/-- The ranks that the walk starts with. -/
def ground : OrderedMap String Nat :=
  .ofKeys a.ids fun _ => 0

end

/-- The ranks are those of one pass over the ids met. -/
theorem ranks_of : (of a).ranks = (met a).foldl (passOn a) (ground a) := by
  obtain ⟨later, hwalk, -, -⟩ := walk_spec (a := a) (ground a) a.roots a.roots
  show (walk a (ground a) a.roots a.roots).1 = (walk a (ground a) a.roots a.roots).2.foldl _ _
  rw [hwalk]

theorem roots_subset_met : ∀ u ∈ a.roots, u ∈ met a := by
  obtain ⟨later, hwalk, -, -⟩ := walk_spec (a := a) (ground a) a.roots a.roots
  intro u hu
  show u ∈ (walk a (ground a) a.roots a.roots).2
  rw [hwalk]
  exact List.mem_append_left _ hu

theorem nodup_met (h : a.ids.Nodup) : (met a).Nodup := by
  obtain ⟨later, hwalk, hnodup, -⟩ := walk_spec (a := a) (ground a) a.roots a.roots
  show (walk a (ground a) a.roots a.roots).2.Nodup
  rw [hwalk]
  exact hnodup (h.filter _)

/-- Whatever a met id leads to is met. -/
theorem mem_met {u v : String} (hu : u ∈ met a)
    (huv : ReflTransGen (fun u v => v ∈ a.successors u) u v) : v ∈ met a := by
  obtain ⟨later, hwalk, -, hclosed⟩ := walk_spec (a := a) (ground a) a.roots a.roots
  have hmet : met a = a.roots ++ later := congrArg Prod.snd hwalk
  induction huv with
  | refl => exact hu
  | tail _ hbc ih =>
      rw [hmet] at ih ⊢
      exact hclosed _ ih _ hbc

theorem keys_ground (h : a.ids.Nodup) : (ground a).keys = a.ids := by
  have hentries : (ground a).entries = a.ids.map fun id => (id, 0) := by
    have hnew : ((OrderedMap.empty : OrderedMap String Nat).keys ++ a.ids.map id).Nodup := by
      rw [List.map_id]
      exact h
    exact OrderedMap.entries_foldl_insert id (fun _ => 0) hnew
  rw [OrderedMap.keys, hentries, List.map_map]
  exact List.map_id _

theorem keys_ranks_of (h : a.ids.Nodup) : (of a).ranks.keys = a.ids := by
  rw [ranks_of, keys_foldl_passOn, keys_ground h]

/-- The walk starts with all ranks at zero. -/
theorem rankIn_ground (v : String) : rankIn (ground a) v = 0 := by
  have hzero : ∀ e ∈ (ground a).entries, e.2 = 0 :=
    OrderedMap.forall_entries_foldl_insert (P := fun e : String × Nat => e.2 = 0) id (fun _ => 0)
      (List.forall_mem_nil _) fun _ _ => rfl
  unfold rankIn
  cases hget : (ground a).get? v with
  | none => rfl
  | some n => exact hzero (v, n) (OrderedMap.get?_eq_some_iff.1 hget)

end Ranking

end SchemaAtlas
