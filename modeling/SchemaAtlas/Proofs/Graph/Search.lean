/-
What the search for cycles finds, and why it may remember.

The ids remembered are closed under successors, and none of them is on a
cycle (`Settled`). The search stops in the middle of a walk when it meets
a cycle, and what it has settled until then stays settled: an id is
remembered only once everything below it is, never while it is still on
the path. So the invariant is carried together with the fact that no
remembered id lies on the path (`Extends`); a walk that ends without a
cycle has settled all it was sent to.

A cycle that is met is a stretch of the path itself, which follows
relationships and does not repeat (`Walk`). That the answer does not
depend on what is remembered takes two runs side by side: where one of
them passes over a settled id, the other walks below it and comes back
empty-handed, since a settled id leads to no cycle (`explore_passes`).

- `explore_extends`: what a walk adds to the settled ids.
- `explore_found`: what a cycle met on a walk looks like.
- `explore_fst_eq`: the answer does not depend on what is remembered.
- `firstCycle_isSome_iff`: a cycle is found exactly where there is one.
-/
import Mathlib.Data.List.Chain
import SchemaAtlas.Graph.Cycle
import SchemaAtlas.Proofs.Graph.Adjacency

namespace SchemaAtlas

open Relation

namespace CycleSearch

variable {a : Adjacency}

/-- A relationship leads from one id to the other. -/
def Leads (a : Adjacency) (u v : String) : Prop :=
  v ∈ a.successors u

-- ==================================================== settled ids

/-- Ids that lead to no cycle: none is on one, and their successors are
settled as well. -/
structure Settled (a : Adjacency) (known : List String) : Prop where
  closed : ∀ u ∈ known, ∀ v, Leads a u v → v ∈ known
  acyclic : ∀ u ∈ known, ¬ TransGen (Leads a) u u

theorem settled_nil : Settled a [] :=
  ⟨fun _ h => absurd h List.not_mem_nil, fun _ h => absurd h List.not_mem_nil⟩

section

variable {known : List String} (h : Settled a known)
include h

/-- What a settled id leads to is settled. -/
theorem Settled.mem_of_reaches {u v : String} (hu : u ∈ known) (huv : ReflTransGen (Leads a) u v) :
    v ∈ known := by
  induction huv with
  | refl => exact hu
  | tail _ hbc ih => exact h.closed _ ih _ hbc

/-- No cycle can be reached from a settled id. -/
theorem Settled.not_onCycle {u v : String} (hu : u ∈ known)
    (huv : ReflTransGen (Leads a) u v) : ¬ TransGen (Leads a) v v :=
  h.acyclic v (h.mem_of_reaches hu huv)

/-- An id can be settled once its successors are. -/
theorem Settled.snoc {id : String} (hid : id ∉ known)
    (hsuccessors : ∀ v, Leads a id v → v ∈ known) : Settled a (known ++ [id]) := by
  constructor
  · intro u hu v huv
    rcases List.mem_append.1 hu with hu | hu
    · exact List.mem_append_left _ (h.closed u hu v huv)
    · rw [List.mem_singleton.1 hu] at huv
      exact List.mem_append_left _ (hsuccessors v huv)
  · intro u hu hcycle
    rcases List.mem_append.1 hu with hu | hu
    · exact h.acyclic u hu hcycle
    · rw [List.mem_singleton.1 hu] at hcycle
      -- a cycle through the id would pass through a settled successor
      obtain ⟨v, hv, hback⟩ := TransGen.head'_iff.1 hcycle
      exact hid (h.mem_of_reaches (hsuccessors v hv) hback)

/-- An id without successors can be settled at once. -/
theorem Settled.snoc_leaf {id : String} (hid : id ∉ known) (hsource : id ∉ a.sources) :
    Settled a (known ++ [id]) := by
  refine h.snoc hid fun v hv => ?_
  rw [Leads, Adjacency.successors_of_not_mem_sources hsource] at hv
  cases hv

end

-- ==================================================== branches of a walk

section

variable {path known : List String} {id : String} (ids : List String)

theorem explore_nil : explore a path known [] = (none, known) := by
  rw [explore]

theorem explore_of_mem_known (hpath : id ∉ path) (hknown : id ∈ known) :
    explore a path known (id :: ids) = explore a path known ids := by
  rw [explore]
  simp [hpath, hknown]

variable (hpath : id ∉ path) (hknown : id ∉ known)
include hpath hknown

theorem explore_new_some {cycle known' : List String}
    (h : explore a (path ++ [id]) known (a.successors id) = (some cycle, known')) :
    explore a path known (id :: ids) = (some cycle, known') := by
  by_cases hsource : id ∈ a.sources
  · rw [explore]
    simp [hpath, hknown, hsource, h]
  · rw [Adjacency.successors_of_not_mem_sources hsource, explore_nil] at h
    cases h

/-- An id below which there is no cycle is settled. -/
theorem explore_new_none {known' : List String}
    (h : explore a (path ++ [id]) known (a.successors id) = (none, known')) :
    explore a path known (id :: ids) = explore a path (known' ++ [id]) ids := by
  by_cases hsource : id ∈ a.sources
  · rw [explore]
    simp [hpath, hknown, hsource, h]
  · rw [Adjacency.successors_of_not_mem_sources hsource, explore_nil] at h
    cases h
    rw [explore]
    simp [hpath, hknown, hsource]

end

-- ==================================================== what a walk settles

/-- What a walk does to the settled ids: they stay settled, none comes
to lie on the path, and without a cycle all targets are settled. -/
structure Extends (a : Adjacency) (path known targets : List String)
    (result : Option (List String) × List String) : Prop where
  settled : Settled a result.2
  off_path : ∀ u ∈ result.2, u ∉ path
  subset : ∀ u ∈ known, u ∈ result.2
  targets : result.1 = none → ∀ t ∈ targets, t ∈ result.2

section

variable {path known : List String} {id : String}

theorem off_path_below (hid : id ∉ known) (hoff : ∀ u ∈ known, u ∉ path) :
    ∀ u ∈ known, u ∉ path ++ [id] := by
  intro u hu hup
  rcases List.mem_append.1 hup with hup | hup
  · exact hoff u hu hup
  · exact hid (List.mem_singleton.1 hup ▸ hu)

theorem off_path_above (hid : id ∉ path) (hoff : ∀ u ∈ known, u ∉ path ++ [id]) :
    ∀ u ∈ known ++ [id], u ∉ path := by
  intro u hu hup
  rcases List.mem_append.1 hu with hu | hu
  · exact hoff u hu (List.mem_append_left _ hup)
  · exact hid (List.mem_singleton.1 hu ▸ hup)

/-- An id below which everything is settled is settled next. -/
theorem Extends.snoc {known' : List String}
    (h : Extends a (path ++ [id]) known (a.successors id) (none, known')) :
    Settled a (known' ++ [id]) :=
  h.settled.snoc (fun hid => h.off_path id hid (by simp)) (h.targets rfl)

/-- The targets of a walk are settled once the first one and the others
are. -/
theorem Extends.cons {known' ids : List String} {result : Option (List String) × List String}
    (h : Extends a path known' ids result) (hsubset : ∀ u ∈ known, u ∈ known')
    (hid : id ∈ known') : Extends a path known (id :: ids) result := by
  refine ⟨h.settled, h.off_path, fun u hu => h.subset u (hsubset u hu), ?_⟩
  intro hnone t ht
  rcases List.mem_cons.1 ht with rfl | ht
  · exact h.subset t hid
  · exact h.targets hnone t ht

end

/-- A walk keeps the settled ids settled. -/
theorem explore_extends {path known targets : List String} (hsettled : Settled a known)
    (hoff : ∀ u ∈ known, u ∉ path) :
    Extends a path known targets (explore a path known targets) := by
  fun_induction explore a path known targets with
  | case1 path known => exact ⟨hsettled, hoff, fun _ h => h, fun _ _ h => absurd h List.not_mem_nil⟩
  | case2 path known id ids hpath => exact ⟨hsettled, hoff, fun _ h => h, fun h => by cases h⟩
  | case3 path known id ids hpath hknown ih =>
      exact (ih hsettled hoff).cons (fun _ h => h) (by simpa using hknown)
  | case4 path known id ids hpath hknown hsource cycle known' h ih =>
      have hbelow := ih hsettled (off_path_below (by simpa using hknown) hoff)
      rw [h] at hbelow
      refine ⟨hbelow.settled, ?_, hbelow.subset, fun h => by cases h⟩
      intro u hu hup
      exact hbelow.off_path u hu (List.mem_append_left _ hup)
  | case5 path known id ids hpath hknown hsource known' h ih₁ ih₂ =>
      have hbelow := ih₁ hsettled (off_path_below (by simpa using hknown) hoff)
      rw [h] at hbelow
      have hrest := ih₂ hbelow.snoc (off_path_above (by simpa using hpath) hbelow.off_path)
      exact hrest.cons (fun u hu => List.mem_append_left _ (hbelow.subset u hu)) (by simp)
  | case6 path known id ids hpath hknown hsource ih =>
      have hid : id ∉ known := by simpa using hknown
      have hrest := ih (hsettled.snoc_leaf hid (by simpa using hsource))
        (off_path_above (by simpa using hpath) (off_path_below hid hoff))
      exact hrest.cons (fun u hu => List.mem_append_left _ hu) (by simp)

-- ==================================================== what a walk finds

/-- A path along relationships without repetition, from whose end
relationships lead to all targets. -/
structure Walk (a : Adjacency) (path targets : List String) : Prop where
  chain : path.IsChain (Leads a)
  nodup : path.Nodup
  leads : ∀ l ∈ path.getLast?, ∀ t ∈ targets, Leads a l t

/-- A cycle as it is reported: it ends with the id it begins with, and
repeats no other. -/
structure IsCycle (a : Adjacency) (v : String) (cycle : List String) : Prop where
  closed : ∃ vs, cycle = v :: vs ++ [v] ∧ (v :: vs).Nodup
  chain : cycle.IsChain (Leads a)

section

variable {path ids : List String} {id : String}

theorem Walk.tail (w : Walk a path (id :: ids)) : Walk a path ids :=
  ⟨w.chain, w.nodup, fun l hl t ht => w.leads l hl t (List.mem_cons_of_mem id ht)⟩

theorem Walk.chain_snoc (w : Walk a path (id :: ids)) : (path ++ [id]).IsChain (Leads a) := by
  refine List.isChain_append.2 ⟨w.chain, List.isChain_singleton id, ?_⟩
  intro l hl t ht
  cases ht
  exact w.leads l hl id List.mem_cons_self

/-- A walk goes on below a new id. -/
theorem Walk.below (w : Walk a path (id :: ids)) (hid : id ∉ path) :
    Walk a (path ++ [id]) (a.successors id) := by
  refine ⟨w.chain_snoc, ?_, ?_⟩
  · refine List.nodup_append.2 ⟨w.nodup, by simp, ?_⟩
    intro u hu v hv huv
    exact hid (List.mem_singleton.1 hv ▸ huv ▸ hu)
  · intro l hl t ht
    rw [List.getLast?_concat] at hl
    cases hl
    exact ht

/-- An id met again closes a cycle. -/
theorem Walk.isCycle (w : Walk a path (id :: ids)) (hid : id ∈ path) :
    IsCycle a id (path.dropWhile (· ≠ id) ++ [id]) := by
  obtain ⟨us, vs, hsplit, hus⟩ := List.eq_append_cons_of_mem hid
  have hdrop : path.dropWhile (· ≠ id) = id :: vs := by
    rw [hsplit, List.dropWhile_append_of_pos, List.dropWhile_cons_of_neg (by simp)]
    intro u hu
    have hne : u ≠ id := fun e => hus (e ▸ hu)
    simpa using hne
  have hchain := w.chain_snoc
  have hnodup := w.nodup
  rw [hsplit] at hchain hnodup
  rw [List.append_assoc] at hchain
  rw [hdrop]
  exact ⟨⟨vs, rfl, (List.nodup_append.1 hnodup).2.1⟩, List.IsChain.right_of_append hchain⟩

end

theorem transGen_of_isChain {u v : String} {vs : List String}
    (h : (u :: vs ++ [v]).IsChain (Leads a)) : TransGen (Leads a) u v := by
  induction vs generalizing u with
  | nil => exact .single h.rel
  | cons w vs ih => exact .head h.rel (ih h.tail)

/-- The id that a cycle begins with is on a cycle. -/
theorem IsCycle.transGen {v : String} {cycle : List String} (h : IsCycle a v cycle) :
    TransGen (Leads a) v v := by
  obtain ⟨vs, hcycle, -⟩ := h.closed
  have hchain := h.chain
  rw [hcycle] at hchain
  exact transGen_of_isChain hchain

theorem exists_leads_of_isChain {u v : String} {vs : List String}
    (h : (u :: vs ++ [v]).IsChain (Leads a)) : ∀ x ∈ u :: vs, ∃ y, Leads a x y := by
  induction vs generalizing u with
  | nil =>
      intro x hx
      rw [List.mem_singleton.1 hx]
      exact ⟨v, h.rel⟩
  | cons w vs ih =>
      intro x hx
      rcases List.mem_cons.1 hx with rfl | hx
      · exact ⟨w, h.rel⟩
      · exact ih h.tail x hx

/-- A cycle goes on from each of its members. -/
theorem IsCycle.exists_leads {v : String} {cycle : List String} (h : IsCycle a v cycle) :
    ∀ x ∈ cycle, ∃ y, Leads a x y := by
  obtain ⟨vs, hcycle, -⟩ := h.closed
  have hchain := h.chain
  rw [hcycle] at hchain ⊢
  intro x hx
  rcases List.mem_append.1 hx with hx | hx
  · exact exists_leads_of_isChain hchain x hx
  · rw [List.mem_singleton.1 hx]
    exact exists_leads_of_isChain hchain v List.mem_cons_self

/-- What a walk finds is a cycle that a target leads to. -/
theorem explore_found {path known targets : List String} (w : Walk a path targets)
    {cycle : List String} (h : (explore a path known targets).1 = some cycle) :
    ∃ v, IsCycle a v cycle ∧ ∃ t ∈ targets, ReflTransGen (Leads a) t v := by
  fun_induction explore a path known targets with
  | case1 path known => cases h
  | case2 path known id ids hpath =>
      cases h
      exact ⟨id, w.isCycle (by simpa using hpath), id, List.mem_cons_self, .refl⟩
  | case3 path known id ids hpath hknown ih =>
      obtain ⟨v, hv, t, ht, htv⟩ := ih w.tail h
      exact ⟨v, hv, t, List.mem_cons_of_mem id ht, htv⟩
  | case4 path known id ids hpath hknown hsource cycle' known' hbelow ih =>
      cases h
      obtain ⟨v, hv, t, ht, htv⟩ := ih (w.below (by simpa using hpath)) (by rw [hbelow])
      exact ⟨v, hv, id, List.mem_cons_self, .head ht htv⟩
  | case5 path known id ids hpath hknown hsource known' hbelow ih₁ ih₂ =>
      obtain ⟨v, hv, t, ht, htv⟩ := ih₂ w.tail h
      exact ⟨v, hv, t, List.mem_cons_of_mem id ht, htv⟩
  | case6 path known id ids hpath hknown hsource ih =>
      obtain ⟨v, hv, t, ht, htv⟩ := ih w.tail h
      exact ⟨v, hv, t, List.mem_cons_of_mem id ht, htv⟩

-- ==================================================== what is remembered

/-- Below a settled id a walk finds nothing, whatever it remembers. -/
theorem explore_below_settled {settled path known ids : List String} {id : String}
    (hsettled : Settled a settled) (hid : id ∈ settled) (w : Walk a path (id :: ids))
    (hpath : id ∉ path) : (explore a (path ++ [id]) known (a.successors id)).1 = none := by
  cases h : (explore a (path ++ [id]) known (a.successors id)).1 with
  | none => rfl
  | some cycle =>
      obtain ⟨v, hv, t, ht, htv⟩ := explore_found (w.below hpath) h
      exact absurd hv.transGen (hsettled.not_onCycle hid (.head ht htv))

/-- A walk passes over an id that can be settled, whatever it remembers. -/
theorem explore_passes {settled path known ids : List String} {id : String}
    (hsettled : Settled a settled) (hid : id ∈ settled) (w : Walk a path (id :: ids))
    (hpath : id ∉ path) (hknown : Settled a known) (hoff : ∀ u ∈ known, u ∉ path) :
    ∃ known', Settled a known' ∧ (∀ u ∈ known', u ∉ path) ∧
      explore a path known (id :: ids) = explore a path known' ids := by
  by_cases hmem : id ∈ known
  · exact ⟨known, hknown, hoff, explore_of_mem_known ids hpath hmem⟩
  · have hnone : (explore a (path ++ [id]) known (a.successors id)).1 = none :=
      explore_below_settled hsettled hid w hpath
    have hbelow : Extends a (path ++ [id]) known (a.successors id) _ :=
      explore_extends hknown (off_path_below hmem hoff)
    cases h : explore a (path ++ [id]) known (a.successors id) with
    | mk result known' =>
        rw [h] at hnone hbelow
        cases hnone
        exact ⟨known' ++ [id], hbelow.snoc, off_path_above hpath hbelow.off_path,
          explore_new_none ids hpath hmem h⟩

/-- The answer of a walk does not depend on what it remembers. -/
theorem explore_fst_eq {path known known₂ targets : List String} (w : Walk a path targets)
    (hknown : Settled a known) (hoff : ∀ u ∈ known, u ∉ path)
    (hknown₂ : Settled a known₂) (hoff₂ : ∀ u ∈ known₂, u ∉ path) :
    (explore a path known targets).1 = (explore a path known₂ targets).1 := by
  fun_induction explore a path known targets generalizing known₂ with
  | case1 path known => rw [explore_nil]
  | case2 path known id ids hpath => rw [explore, if_pos hpath]
  | case3 path known id ids hpath hmem ih =>
      obtain ⟨known₃, hknown₃, hoff₃, heq⟩ :=
        explore_passes hknown (by simpa using hmem) w (by simpa using hpath) hknown₂ hoff₂
      rw [heq]
      exact ih w.tail hknown hoff hknown₃ hoff₃
  | case4 path known id ids hpath hmem hsource cycle known' h ih =>
      have hid : id ∉ path := by simpa using hpath
      have hmem₂ : id ∉ known₂ := by
        intro hmem₂
        have hnone : (explore a (path ++ [id]) known (a.successors id)).1 = none :=
          explore_below_settled hknown₂ hmem₂ w hid
        rw [h] at hnone
        cases hnone
      have hbelow := ih (w.below hid) hknown (off_path_below (by simpa using hmem) hoff) hknown₂
        (off_path_below hmem₂ hoff₂)
      cases h₂ : explore a (path ++ [id]) known₂ (a.successors id) with
      | mk result known₂' =>
          rw [h, h₂] at hbelow
          cases hbelow
          rw [explore_new_some ids hid hmem₂ h₂]
  | case5 path known id ids hpath hmem hsource known' h ih₁ ih₂ =>
      have hid : id ∉ path := by simpa using hpath
      have hbelow : Extends a (path ++ [id]) known (a.successors id) _ :=
        explore_extends hknown (off_path_below (by simpa using hmem) hoff)
      rw [h] at hbelow
      obtain ⟨known₃, hknown₃, hoff₃, heq⟩ :=
        explore_passes hbelow.snoc (by simp) w hid hknown₂ hoff₂
      rw [heq]
      exact ih₂ w.tail hbelow.snoc (off_path_above hid hbelow.off_path) hknown₃ hoff₃
  | case6 path known id ids hpath hmem hsource ih =>
      have hid : id ∉ path := by simpa using hpath
      have hmem' : id ∉ known := by simpa using hmem
      have hleaf : Settled a (known ++ [id]) := hknown.snoc_leaf hmem' (by simpa using hsource)
      obtain ⟨known₃, hknown₃, hoff₃, heq⟩ := explore_passes hleaf (by simp) w hid hknown₂ hoff₂
      rw [heq]
      exact ih w.tail hleaf (off_path_above hid (off_path_below hmem' hoff)) hknown₃ hoff₃

-- ==================================================== first cycles

section

variable {known : List String} (hknown : Settled a known) {start : String}

theorem walk_start : Walk a [start] (a.successors start) := by
  refine ⟨List.isChain_singleton start, by simp, ?_⟩
  intro l hl t ht
  cases hl
  exact ht

theorem off_start (h : start ∉ known) : ∀ u ∈ known, u ∉ [start] := by
  intro u hu hs
  exact h (List.mem_singleton.1 hs ▸ hu)

theorem firstCycle_fst :
    (firstCycle a known start).1 =
      if start ∈ known then none else (explore a [start] known (a.successors start)).1 := by
  unfold firstCycle
  by_cases hmem : start ∈ known
  · simp [hmem]
  · simp only [List.contains_iff_mem, hmem, if_false]
    cases explore a [start] known (a.successors start) with
    | mk result known' => cases result <;> rfl

/-- What is found from a start is a cycle that the start leads to. -/
theorem firstCycle_found {cycle : List String} (h : (firstCycle a known start).1 = some cycle) :
    ∃ v, IsCycle a v cycle ∧ ReflTransGen (Leads a) start v := by
  rw [firstCycle_fst] at h
  split at h
  · cases h
  · obtain ⟨v, hv, t, ht, htv⟩ := explore_found walk_start h
    exact ⟨v, hv, .head ht htv⟩

include hknown

/-- A search keeps the settled ids settled, and a search without a cycle
settles its start. -/
theorem firstCycle_settled (start : String) :
    Settled a (firstCycle a known start).2 ∧
      ((firstCycle a known start).1 = none → start ∈ (firstCycle a known start).2) := by
  unfold firstCycle
  by_cases hmem : start ∈ known
  · simp [hmem, hknown]
  · have hextends : Extends a [start] known (a.successors start) _ :=
      explore_extends hknown (off_start hmem)
    simp only [List.contains_iff_mem, hmem, if_false]
    cases h : explore a [start] known (a.successors start) with
    | mk result known' =>
        rw [h] at hextends
        cases result with
        | some cycle => exact ⟨hextends.settled, fun h => by cases h⟩
        | none =>
            refine ⟨hextends.settled.snoc ?_ (hextends.targets rfl), fun _ => by simp⟩
            intro hstart
            exact hextends.off_path start hstart (by simp)

/-- A cycle is found exactly if the start leads to one. -/
theorem firstCycle_isSome_iff :
    (firstCycle a known start).1.isSome = true ↔
      ∃ v, ReflTransGen (Leads a) start v ∧ TransGen (Leads a) v v := by
  constructor
  · intro h
    obtain ⟨cycle, hcycle⟩ := Option.isSome_iff_exists.1 h
    obtain ⟨v, hv, hreach⟩ := firstCycle_found hcycle
    exact ⟨v, hreach, hv.transGen⟩
  · rintro ⟨v, hreach, hcycle⟩
    obtain ⟨hsettled, hstart⟩ := firstCycle_settled hknown start
    cases h : (firstCycle a known start).1 with
    | some cycle => rfl
    | none => exact absurd hcycle (hsettled.not_onCycle (hstart h) hreach)

/-- What was searched before does not change what is found. -/
theorem firstCycle_fst_eq : (firstCycle a known start).1 = (firstCycle a [] start).1 := by
  by_cases hmem : start ∈ known
  · have hnone : ¬ (firstCycle a [] start).1.isSome = true := by
      rw [firstCycle_isSome_iff settled_nil]
      rintro ⟨v, hreach, hcycle⟩
      exact hknown.not_onCycle hmem hreach hcycle
    rw [firstCycle_fst, if_pos hmem]
    exact (Option.not_isSome_iff_eq_none.1 hnone).symm
  · rw [firstCycle_fst, firstCycle_fst, if_neg hmem, if_neg List.not_mem_nil]
    exact explore_fst_eq walk_start hknown (off_start hmem) settled_nil
      (off_start List.not_mem_nil)

end

/-- The ids settled by a run of searches. -/
def knownAfter (a : Adjacency) (starts : List String) : List String :=
  starts.foldl (fun known start => (firstCycle a known start).2) []

/-- A run of searches keeps the settled ids settled. -/
theorem settled_knownAfter (starts : List String) : Settled a (knownAfter a starts) :=
  List.foldlRecOn (motive := Settled a) starts _ settled_nil
    fun _ h start _ => (firstCycle_settled h start).1

end CycleSearch

end SchemaAtlas
