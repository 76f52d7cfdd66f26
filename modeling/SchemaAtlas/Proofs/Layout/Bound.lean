/-
Bounds on ranks, in graphs with cycles too. Each round of the walk takes
one id from the queue, and each id is queued once, so there are no more
rounds than schemas and relationships (`iterate_next`).

The lower bound goes wave by wave: when all waves in front of a schema's
wave are taken, it has a rank of at least their number (`le_rankIn_sweep`).
The upper bound counts rounds: a round raises the greatest rank by one at
most, and only if the id it takes is a schema (`rankIn_foldl_le`). What a
schema passes on to itself or around a cycle is no exception, for no id
is taken twice.

- `SchemaGraph.IsReached`: the ids to which walks from the sources lead.
- `Tour.next`: one round of the walk.
- `rankOf_bounds`: the rounds of the walk and the ranks it ends with.
-/
import Mathlib.Data.Set.Card
import Mathlib.Logic.Function.Iterate
import SchemaAtlas.Proofs.Layout.Breadth

namespace SchemaAtlas

open Relation

-- ==================================================== reached ids

namespace SchemaGraph

variable {g : SchemaGraph}

/-- Relationships lead to the id from a source, or it is one. -/
def IsReached (g : SchemaGraph) (v : String) : Prop :=
  ∃ u, g.IsSource u ∧ g.Reaches u v

theorem Trail.reaches {u v : String} {n : Nat} (h : g.Trail u n v) : g.Reaches u v := by
  induction h with
  | start => exact ReflTransGen.refl
  | step _ hlink ih => exact ih.tail hlink

theorem exists_wave_of_mem_met {v : String} (h : v ∈ Ranking.met (Adjacency.of g)) :
    ∃ n, v ∈ g.wave n := by
  rw [Ranking.met_eq, ← sweep_succ_fst, mem_sweep_fst] at h
  obtain ⟨n, -, hv⟩ := h
  exact ⟨n, hv⟩

/-- The walk meets what is reached. -/
theorem mem_met_iff {v : String} : v ∈ Ranking.met (Adjacency.of g) ↔ g.IsReached v := by
  constructor
  · intro h
    obtain ⟨n, hv⟩ := exists_wave_of_mem_met h
    obtain ⟨u, hu, ht⟩ := mem_depths_of_mem_wave hv
    exact ⟨u, hu, ht.reaches⟩
  · rintro ⟨u, hu, huv⟩
    refine Ranking.mem_met (Ranking.roots_subset_met u (Ranking.mem_roots_of.2 hu)) ?_
    exact ReflTransGen.mono (fun _ _ hlink => Adjacency.mem_successors_of.2 hlink) u v huv

end SchemaGraph

-- ==================================================== rounds

/-- The walk between two rounds. -/
structure Tour where
  ranks : OrderedMap String Nat
  met : List String
  queue : List String

namespace Tour

open Ranking (fresh passOn ground)

/-- The walk before its first round. -/
def start (a : Adjacency) : Tour :=
  ⟨ground a, a.roots, a.roots⟩

/-- One round: the first id is taken from the queue. With nothing in the
queue the walk is over. -/
def next (a : Adjacency) : Tour → Tour
  | ⟨ranks, met, []⟩ => ⟨ranks, met, []⟩
  | ⟨ranks, met, id :: queue⟩ =>
      ⟨passOn a ranks id, met ++ fresh met (a.successors id), queue ++ fresh met (a.successors id)⟩

variable {a : Adjacency}

/-- There is a round for each id in the queue and each that is met
later. -/
theorem iterate_walk (ranks : OrderedMap String Nat) (met queue : List String) :
    ∃ later, (Ranking.walk a ranks met queue).2 = met ++ later
      ∧ (next a)^[queue.length + later.length] ⟨ranks, met, queue⟩ =
        ⟨(Ranking.walk a ranks met queue).1, met ++ later, []⟩ := by
  fun_induction Ranking.walk a ranks met queue with
  | case1 ranks met => exact ⟨[], (List.append_nil met).symm, by rw [List.append_nil]; rfl⟩
  | case2 ranks met id queue targets new ih =>
      obtain ⟨later, hmet, hrounds⟩ := ih
      have hcount : (id :: queue).length + (new ++ later).length =
          ((queue ++ new).length + later.length) + 1 := by
        simp only [List.length_cons, List.length_append]
        omega
      refine ⟨new ++ later, ?_, ?_⟩
      · rw [hmet, List.append_assoc]
      · rw [hcount, Function.iterate_succ_apply, ← List.append_assoc]
        exact hrounds

/-- After as many rounds as ids are met the walk is over, with the ranks
of the layout. -/
theorem iterate_next (a : Adjacency) : (next a)^[(Ranking.met a).length] (start a) =
    ⟨(Ranking.of a).ranks, Ranking.met a, []⟩ := by
  obtain ⟨later, hmet, hrounds⟩ := iterate_walk (a := a) (ground a) a.roots a.roots
  have hmet : Ranking.met a = a.roots ++ later := hmet
  rw [hmet, List.length_append]
  exact hrounds

end Tour

-- ==================================================== bounds

namespace Ranking

variable {a : Adjacency} {g : SchemaGraph}

/-- One round for each schema, and one for each target at most. -/
theorem length_met_le (g : SchemaGraph) :
    (met (Adjacency.of g)).length ≤ g.ids.length + g.relationships.length := by
  rw [met_eq, List.length_append]
  exact Nat.add_le_add (List.length_filter_le _ _) (g.length_later_le _)

/-- A schema that no met id leads to stays on rank zero. -/
theorem rankOf_eq_zero {v : String} (h : ∀ u ∈ met (Adjacency.of g), ¬ g.Links u v) :
    (of (Adjacency.of g)).rankOf v = 0 := by
  have hleads : ∀ u ∈ met (Adjacency.of g), v ∉ (Adjacency.of g).successors u :=
    fun u hu huv => h u hu (Adjacency.mem_successors_of.1 huv)
  rw [rankOf_of, rankIn_foldl_of_not_mem _ _ _ hleads, rankIn_ground]

/-- Taking an id raises the greatest rank by one at most. -/
theorem rankIn_passOn_le {ranks : OrderedMap String Nat} {bound : Nat}
    (h : ∀ v, rankIn ranks v ≤ bound) (id v : String) :
    rankIn (passOn a ranks id) v ≤ bound + 1 := by
  have hid := h id
  have hv := h v
  rw [rankIn_passOn]
  split <;> omega

section

variable (hsource : ∀ r ∈ g.relationships, g.contains r.source = true)
include hsource

/-- When all earlier waves are taken, a schema has risen by as many
ranks. -/
theorem le_rankIn_sweep {n : Nat} {v : String} (hv : v ∈ g.wave n) (hids : v ∈ g.ids) :
    n ≤ rankIn ((g.sweep n).1.foldl (passOn (Adjacency.of g)) (ground (Adjacency.of g))) v := by
  induction n generalizing v with
  | zero => exact Nat.zero_le _
  | succ n ih =>
      rw [SchemaGraph.wave_succ] at hv
      obtain ⟨u, hu, huv⟩ := List.mem_flatMap.1 (mem_fresh.1 hv).1
      have hlink : g.Links u v := SchemaGraph.mem_linked.1 huv
      -- the wave of `u` is taken from its front, and `u` does not fall until its turn
      obtain ⟨us, vs, hwave⟩ := List.append_of_mem hu
      have htaken : (g.sweep (n + 1)).1 = ((g.sweep n).1 ++ us) ++ u :: vs := by
        rw [List.append_assoc, ← hwave]
        rfl
      have hrisen := ih hu (SchemaGraph.mem_ids_of_links hsource hlink)
      have hturn := rankIn_le_foldl (a := Adjacency.of g)
        ((g.sweep n).1.foldl (passOn (Adjacency.of g)) (ground (Adjacency.of g))) us u
      rw [← List.foldl_append] at hturn
      have hraised := rankIn_lt_foldl ((g.sweep n).1 ++ us) vs (keys_ground_of.symm ▸ hids)
        (Adjacency.mem_successors_of.2 hlink)
      rw [htaken]
      omega

/-- The rank of a schema is its distance at least. -/
theorem le_rankOf {n : Nat} {v : String} (hv : v ∈ g.wave n) (hids : v ∈ g.ids) :
    n ≤ (of (Adjacency.of g)).rankOf v := by
  let a := Adjacency.of g
  let taken := (g.sweep n).1.foldl (passOn a) (ground a)
  obtain ⟨later, hwalk, -, -⟩ := walk_spec (a := a) taken ((g.sweep n).1 ++ (g.sweep n).2)
    (g.sweep n).2
  have hranks : (of a).ranks = (g.wave n ++ later).foldl (passOn a) taken := by
    show (walk a (ground a) a.roots a.roots).1 = _
    rw [Adjacency.roots_of, walk_sweep g n, hwalk]
    rfl
  have hrisen : n ≤ rankIn taken v := le_rankIn_sweep hsource hv hids
  have hrest : rankIn taken v ≤ rankIn ((g.wave n ++ later).foldl (passOn a) taken) v :=
    rankIn_le_foldl taken _ v
  rw [← hranks] at hrest
  exact Nat.le_trans hrisen hrest

/-- A pass raises ranks by no more than the number of schemas it takes. -/
theorem rankIn_foldl_le {ranks : OrderedMap String Nat} {bound : Nat}
    (h : ∀ v, rankIn ranks v ≤ bound) (us : List String) (v : String) :
    rankIn (us.foldl (passOn (Adjacency.of g)) ranks) v ≤
      bound + (us.filter g.contains).length := by
  induction us generalizing ranks bound with
  | nil => exact h v
  | cons u us ih =>
      rw [List.foldl_cons]
      by_cases hu : g.contains u = true
      · have hlater := ih (rankIn_passOn_le (a := Adjacency.of g) h u)
        rw [List.filter_cons_of_pos hu, List.length_cons]
        omega
      · -- an id that is no schema leads nowhere
        have hsame : ∀ w, rankIn (passOn (Adjacency.of g) ranks u) w ≤ bound := by
          intro w
          rw [rankIn_passOn_of_not_mem]
          · exact h w
          · intro hw
            exact hu (SchemaGraph.mem_ids.1
              (SchemaGraph.mem_ids_of_links hsource (Adjacency.mem_successors_of.1 hw)))
        rw [List.filter_cons_of_neg hu]
        exact ih hsame

end

/-- The schemas among the ids met are those that are reached. -/
theorem length_filter_met (g : SchemaGraph) :
    ((met (Adjacency.of g)).filter g.contains).length =
      {v | v ∈ g.ids ∧ g.IsReached v}.ncard := by
  have hset : {v | v ∈ g.ids ∧ g.IsReached v} =
      ↑((met (Adjacency.of g)).filter g.contains).toFinset := by
    ext v
    rw [List.coe_toFinset, Set.mem_ofPred_eq, Set.mem_ofPred_eq, List.mem_filter,
      SchemaGraph.mem_met_iff, SchemaGraph.mem_ids, and_comm]
  rw [hset, Set.ncard_coe_finset, List.toFinset_card_of_nodup ((nodup_met (Adjacency.nodup_ids_of g)).filter _)]

/-- The walk is over after no more rounds than there are schemas and
relationships. A schema ends up on rank zero exactly if nothing leads to
it or no source does; any other is at its distance from the sources at
least, and no higher than there are reached schemas. -/
theorem rankOf_bounds (hsource : ∀ r ∈ g.relationships, g.contains r.source = true) :
    (∃ rounds ≤ g.ids.length + g.relationships.length,
        (Tour.next (Adjacency.of g))^[rounds] (Tour.start (Adjacency.of g)) =
          ⟨(of (Adjacency.of g)).ranks, met (Adjacency.of g), []⟩)
      ∧ (of (Adjacency.of g)).ranks.keys = g.ids
      ∧ ∀ v ∈ g.ids,
        ((of (Adjacency.of g)).rankOf v = 0 ↔ (∀ u, ¬ g.Links u v) ∨ ¬ g.IsReached v)
        ∧ ((of (Adjacency.of g)).rankOf v ≠ 0 →
          ∃ d, IsLeast (g.depths v) d ∧ d ≤ (of (Adjacency.of g)).rankOf v
            ∧ (of (Adjacency.of g)).rankOf v ≤ {w | w ∈ g.ids ∧ g.IsReached w}.ncard) := by
  refine ⟨⟨_, length_met_le g, Tour.iterate_next _⟩, keys_of, fun v hv => ⟨⟨?_, ?_⟩, ?_⟩⟩
  · intro hzero
    by_contra hneither
    obtain ⟨hlinks, hreached⟩ := not_or.1 hneither
    obtain ⟨n, hn⟩ := SchemaGraph.exists_wave_of_mem_met
      (SchemaGraph.mem_met_iff.2 (not_not.1 hreached))
    cases n with
    | zero => exact hlinks (SchemaGraph.mem_sources.1 hn).2
    | succ n =>
        have hle := le_rankOf hsource hn hv
        omega
  · rintro (hlinks | hreached)
    · exact rankOf_eq_zero fun u _ => hlinks u
    · refine rankOf_eq_zero fun u hu huv => ?_
      obtain ⟨s, hs, hsu⟩ := SchemaGraph.mem_met_iff.1 hu
      exact hreached ⟨s, hs, hsu.tail huv⟩
  · intro hpos
    have hmet : v ∈ met (Adjacency.of g) := by
      by_contra hnot
      apply hpos
      refine rankOf_eq_zero fun u hu huv => hnot ?_
      exact mem_met hu (ReflTransGen.single (Adjacency.mem_successors_of.2 huv))
    obtain ⟨n, hn⟩ := SchemaGraph.exists_wave_of_mem_met hmet
    refine ⟨n, SchemaGraph.mem_wave_iff.1 hn, le_rankOf hsource hn hv, ?_⟩
    have hground : ∀ w, rankIn (ground (Adjacency.of g)) w ≤ 0 :=
      fun w => Nat.le_of_eq (rankIn_ground w)
    have hle := rankIn_foldl_le hsource hground (met (Adjacency.of g)) v
    rw [Nat.zero_add, length_filter_met, ← rankOf_of] at hle
    exact hle

/-- `F` raised itself to the third rank and no further; `D` stays on the
first, though `E` leads to it, for no source does. -/
theorem rankOf_bounds_tangledGraph :
    (∀ r ∈ tangledGraph.relationships, tangledGraph.contains r.source = true)
      ∧ (∃ d, IsLeast (tangledGraph.depths "F") d ∧ d ≤ 2
        ∧ 2 ≤ {v | v ∈ tangledGraph.ids ∧ tangledGraph.IsReached v}.ncard)
      ∧ tangledGraph.Links "E" "D" ∧ ¬ tangledGraph.IsReached "D" := by
  have hsource : ∀ r ∈ tangledGraph.relationships, tangledGraph.contains r.source = true := by
    decide
  have hids : tangledGraph.ids = ["A", "B", "C", "D", "E", "F"] := by decide
  have hlink : tangledGraph.Links "E" "D" :=
    ⟨.foreignKey "E" "D" "d" .oneToOne, by decide, rfl, rfl⟩
  have hranks := rankOf_tangledGraph
  rw [hids] at hranks
  simp only [List.map_cons, List.map_nil, List.cons.injEq, and_true] at hranks
  obtain ⟨-, -, -, hD, -, hF⟩ := hranks
  obtain ⟨-, -, hbounds⟩ := rankOf_bounds hsource
  refine ⟨hsource, ?_, hlink, ?_⟩
  · have hraised := (hbounds "F" (by rw [hids]; decide)).2
    rw [hF] at hraised
    exact hraised (by decide)
  · rcases (hbounds "D" (by rw [hids]; decide)).1.1 hD with hnone | hunreached
    · exact absurd hlink (hnone "E")
    · exact hunreached

end Ranking

end SchemaAtlas
