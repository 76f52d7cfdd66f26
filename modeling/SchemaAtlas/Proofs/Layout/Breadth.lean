/-
The order of the walk, wave by wave. The first wave are the schemas at
which no relationship ends; each later wave holds what the relationships
of the wave before it lead to and was in no earlier wave, in the order of
these relationships. So a wave holds the ids at one distance from the
sources (`mem_wave_iff`).

While the walk goes on, the queue is what is left of one wave and behind
it what was found of the next (`walk_append`); the ids are met wave after
wave. There are no more waves than relationships, besides the first.

- `SchemaGraph.wave`: the ids of a wave.
- `SchemaGraph.discovery`: the schemas wave by wave, then those in none.
- `met_eq`: the walk meets the waves one after the other.
- `order_eq_discovery`: the order that schemas take within their ranks.
-/
import Mathlib.Data.List.Nodup
import Mathlib.Data.List.Perm.Subperm
import SchemaAtlas.Proofs.Layout.Depth

namespace SchemaAtlas

-- ==================================================== along relationships

namespace SchemaGraph

/-- The schemas at which no relationship ends. -/
def sources (g : SchemaGraph) : List String :=
  g.ids.filter fun id => (g.incoming id).isEmpty

/-- Where the relationships of an id lead. -/
def linked (g : SchemaGraph) (id : String) : List String :=
  (g.outgoing id).map Relationship.target

end SchemaGraph

namespace Adjacency

theorem roots_of (g : SchemaGraph) : (of g).roots = g.sources := by
  unfold roots SchemaGraph.sources
  rw [ids_of]
  apply List.filter_congr
  intro id hid
  rw [Bool.eq_iff_iff, decide_eq_true_eq, inDegree_eq_zero_iff hid, List.isEmpty_iff]

theorem successors_of (g : SchemaGraph) : (of g).successors = g.linked := by
  funext id
  rw [successors, outgoingOf_of]
  rfl

end Adjacency

-- ==================================================== waves

namespace SchemaGraph

/-- The ids of the waves in front of a wave, and those of the wave. -/
def sweep (g : SchemaGraph) : Nat → List String × List String
  | 0 => ([], g.sources)
  | n + 1 =>
      let met := (g.sweep n).1 ++ (g.sweep n).2
      (met, Ranking.fresh met ((g.sweep n).2.flatMap g.linked))

/-- The ids of a wave. -/
def wave (g : SchemaGraph) (n : Nat) : List String :=
  (g.sweep n).2

/-- The ids of the first `n` waves behind the sources. -/
def later (g : SchemaGraph) (n : Nat) : List String :=
  (List.range n).flatMap fun k => g.wave (k + 1)

/-- The sources in schema order, then the other schemas wave by wave,
then those in no wave in schema order. -/
def discovery (g : SchemaGraph) : List String :=
  let later := g.later g.relationships.length
  g.sources ++ later.filter g.contains
    ++ g.ids.filter fun id => !(g.sources ++ later).contains id

variable (g : SchemaGraph)

theorem wave_succ (n : Nat) :
    g.wave (n + 1) = Ranking.fresh (g.sweep (n + 1)).1 ((g.wave n).flatMap g.linked) :=
  rfl

theorem wave_succ_eq_nil {n : Nat} (h : g.wave n = []) : g.wave (n + 1) = [] := by
  rw [wave_succ, h]
  rfl

theorem later_succ (n : Nat) : g.later (n + 1) = g.later n ++ g.wave (n + 1) := by
  unfold later
  rw [List.range_succ, List.flatMap_append, List.flatMap_singleton]

/-- In front of a wave stand all earlier waves. -/
theorem sweep_succ_fst (n : Nat) : (g.sweep (n + 1)).1 = g.sources ++ g.later n := by
  induction n with
  | zero => exact (List.append_nil g.sources).symm
  | succ n ih =>
      show (g.sweep (n + 1)).1 ++ g.wave (n + 1) = _
      rw [ih, later_succ, List.append_assoc]

/-- No id is in two waves, or twice in one. -/
theorem nodup_sweep (n : Nat) : ((g.sweep n).1 ++ (g.sweep n).2).Nodup := by
  induction n with
  | zero => exact g.nodup_ids.filter _
  | succ n ih => exact Ranking.nodup_append_fresh ih _

-- ==================================================== the last wave

/-- Behind the sources all ids are targets of relationships. -/
theorem later_subset (n : Nat) : g.later n ⊆ g.relationships.map Relationship.target := by
  intro v hv
  obtain ⟨k, -, hk⟩ := List.mem_flatMap.1 hv
  rw [wave_succ] at hk
  obtain ⟨u, -, hu⟩ := List.mem_flatMap.1 (Ranking.mem_fresh.1 hk).1
  obtain ⟨r, hr, rfl⟩ := List.mem_map.1 hu
  exact List.mem_map_of_mem (List.mem_of_mem_filter hr)

theorem length_later_le (n : Nat) : (g.later n).length ≤ g.relationships.length := by
  have hnodup : (g.later n).Nodup := by
    have hsweep := g.nodup_sweep (n + 1)
    rw [sweep_succ_fst] at hsweep
    exact hsweep.of_append_left.of_append_right
  have hlength := (hnodup.subperm (g.later_subset n)).length_le
  rwa [List.length_map] at hlength

/-- A wave that is not empty adds to the ids met, and so did all waves
before it. -/
theorem le_length_later {n : Nat} (h : g.wave n ≠ []) : n ≤ (g.later n).length := by
  induction n with
  | zero => exact Nat.zero_le _
  | succ n ih =>
      have hbefore := ih fun hnil => h (g.wave_succ_eq_nil hnil)
      have hpos := List.length_pos_iff.2 h
      rw [later_succ, List.length_append]
      omega

/-- There are no more waves behind the sources than relationships. -/
theorem wave_eq_nil : g.wave (g.relationships.length + 1) = [] := by
  by_contra h
  have hmany := g.le_length_later h
  have hfew := g.length_later_le (g.relationships.length + 1)
  omega

-- ==================================================== distances

variable {g}

/-- What stands in front of a wave is in an earlier one. -/
theorem mem_sweep_fst {n : Nat} {v : String} :
    v ∈ (g.sweep n).1 ↔ ∃ k < n, v ∈ g.wave k := by
  induction n with
  | zero => exact iff_of_false List.not_mem_nil fun ⟨_, hk, _⟩ => Nat.not_lt_zero _ hk
  | succ n ih =>
      show v ∈ (g.sweep n).1 ++ g.wave n ↔ _
      rw [List.mem_append, ih]
      constructor
      · rintro (⟨k, hk, hv⟩ | hv)
        · exact ⟨k, Nat.lt_succ_of_lt hk, hv⟩
        · exact ⟨n, Nat.lt_succ_self n, hv⟩
      · rintro ⟨k, hk, hv⟩
        rcases Nat.lt_succ_iff_lt_or_eq.1 hk with hlt | rfl
        · exact Or.inl ⟨k, hlt, hv⟩
        · exact Or.inr hv

theorem mem_linked {u v : String} : v ∈ g.linked u ↔ g.Links u v := by
  rw [← Adjacency.successors_of]
  exact Adjacency.mem_successors_of

theorem mem_sources {u : String} : u ∈ g.sources ↔ g.IsSource u := by
  rw [← Adjacency.roots_of]
  exact Ranking.mem_roots_of

/-- As many relationships lead to the ids of a wave as waves stand in
front of it. -/
theorem mem_depths_of_mem_wave {n : Nat} {v : String} (h : v ∈ g.wave n) : n ∈ g.depths v := by
  induction n generalizing v with
  | zero => exact ⟨v, mem_sources.1 h, .start⟩
  | succ n ih =>
      rw [wave_succ] at h
      obtain ⟨u, hu, huv⟩ := List.mem_flatMap.1 (Ranking.mem_fresh.1 h).1
      obtain ⟨s, hs, ht⟩ := ih hu
      exact ⟨s, hs, ht.step (mem_linked.1 huv)⟩

/-- Where relationships lead from a source, an id is in a wave by
then. -/
theorem exists_wave_of_trail {s v : String} {n : Nat} (hs : g.IsSource s) (h : g.Trail s n v) :
    ∃ k ≤ n, v ∈ g.wave k := by
  induction h with
  | start => exact ⟨0, Nat.le_refl 0, mem_sources.2 hs⟩
  | @step n v w _ hlink ih =>
      obtain ⟨k, hk, hv⟩ := ih
      by_cases hw : w ∈ (g.sweep (k + 1)).1
      · obtain ⟨j, hj, hw⟩ := mem_sweep_fst.1 hw
        exact ⟨j, by omega, hw⟩
      · refine ⟨k + 1, Nat.succ_le_succ hk, ?_⟩
        rw [wave_succ]
        exact Ranking.mem_fresh.2 ⟨List.mem_flatMap.2 ⟨v, hv, mem_linked.2 hlink⟩, hw⟩

/-- A wave holds the ids at one distance from the sources. -/
theorem mem_wave_iff {n : Nat} {v : String} : v ∈ g.wave n ↔ IsLeast (g.depths v) n := by
  constructor
  · intro h
    refine ⟨mem_depths_of_mem_wave h, ?_⟩
    rintro m ⟨s, hs, ht⟩
    obtain ⟨k, hk, hv⟩ := exists_wave_of_trail hs ht
    -- an id in an earlier wave would be in two
    have hnot : ¬k < n := fun hkn =>
      (List.nodup_append.1 (g.nodup_sweep n)).2.2 v (mem_sweep_fst.2 ⟨k, hkn, hv⟩) v h rfl
    omega
  · rintro ⟨⟨s, hs, ht⟩, hleast⟩
    obtain ⟨k, hk, hv⟩ := exists_wave_of_trail hs ht
    have hle : n ≤ k := hleast (mem_depths_of_mem_wave hv)
    rwa [Nat.le_antisymm hle hk]

end SchemaGraph

-- ==================================================== the walk in waves

namespace Ranking

variable {a : Adjacency}

/-- Looking through two lists, the second is searched for what is neither
met nor in the first. -/
theorem fresh_append (met us vs : List String) :
    fresh met (us ++ vs) = fresh met us ++ fresh (met ++ fresh met us) vs := by
  unfold fresh
  rw [List.filter_append, List.eraseDups_append, List.removeAll, List.filter_filter]
  congr 2
  apply List.filter_congr
  intro v _
  by_cases hmet : v ∈ met <;> by_cases hus : v ∈ us <;> simp [hmet, hus]

/-- What stands in front of the queue is taken, and what it leads to
stands behind the rest. -/
theorem walk_append (ranks : OrderedMap String Nat) (met us vs : List String) :
    walk a ranks met (us ++ vs) =
      walk a (us.foldl (passOn a) ranks) (met ++ fresh met (us.flatMap a.successors))
        (vs ++ fresh met (us.flatMap a.successors)) := by
  induction us generalizing ranks met vs with
  | nil => simp [fresh]
  | cons u us ih =>
      rw [List.cons_append, walk]
      show walk a (passOn a ranks u) (met ++ fresh met (a.successors u))
        (us ++ vs ++ fresh met (a.successors u)) = _
      rw [List.append_assoc, ih, List.foldl_cons, List.flatMap_cons, fresh_append,
        List.append_assoc, List.append_assoc]

variable (g : SchemaGraph)

/-- When the first waves are taken, the next one makes up the queue. -/
theorem walk_sweep (n : Nat) :
    walk (Adjacency.of g) (ground (Adjacency.of g)) g.sources g.sources =
      walk (Adjacency.of g)
        ((g.sweep n).1.foldl (passOn (Adjacency.of g)) (ground (Adjacency.of g)))
        ((g.sweep n).1 ++ (g.sweep n).2) (g.sweep n).2 := by
  induction n with
  | zero => rfl
  | succ n ih =>
      have htaken := walk_append (a := Adjacency.of g)
        ((g.sweep n).1.foldl (passOn (Adjacency.of g)) (ground (Adjacency.of g)))
        ((g.sweep n).1 ++ (g.sweep n).2) (g.sweep n).2 []
      rw [List.append_nil, List.nil_append, ← List.foldl_append, Adjacency.successors_of] at htaken
      exact ih.trans htaken

/-- The walk meets the waves one after the other. -/
theorem met_eq : met (Adjacency.of g) = g.sources ++ g.later g.relationships.length := by
  have hwalk := walk_sweep g (g.relationships.length + 1)
  have hlast : (g.sweep (g.relationships.length + 1)).2 = [] := g.wave_eq_nil
  rw [hlast, List.append_nil, walk, SchemaGraph.sweep_succ_fst] at hwalk
  unfold met
  rw [Adjacency.roots_of]
  exact congrArg Prod.snd hwalk

omit g in
/-- Schemas that are met come first, the others keep the schema order. -/
theorem order_of : (of a).order =
    (met a).filter a.contains ++ a.ids.filter fun id => !(met a).contains id :=
  rfl

/-- Schemas take their places wave by wave, and those that are not met
come last. -/
theorem order_eq_discovery : (of (Adjacency.of g)).order = g.discovery := by
  have hsources : g.sources.filter g.contains = g.sources := by
    refine List.filter_eq_self.2 fun id hid => ?_
    exact SchemaGraph.mem_ids.1 (List.mem_of_mem_filter hid)
  rw [order_of, met_eq, Adjacency.contains_of, Adjacency.ids_of, List.filter_append, hsources]
  rfl

end Ranking

-- ==================================================== a tangled graph

/-- Six schemas: one source, which also leads to an id that is no schema,
one schema that leads to itself, and two that lead to each other and are
not met. -/
def tangledGraph : SchemaGraph :=
  ⟨[⟨"A", "ASchema", []⟩, ⟨"B", "BSchema", []⟩, ⟨"C", "CSchema", []⟩, ⟨"D", "DSchema", []⟩,
    ⟨"E", "ESchema", []⟩, ⟨"F", "FSchema", []⟩],
   [.foreignKey "A" "Absent" "a" .oneToOne, .foreignKey "A" "C" "c" .oneToOne,
    .foreignKey "A" "B" "b" .oneToOne, .foreignKey "A" "F" "f" .oneToOne,
    .foreignKey "F" "F" "f" .oneToOne, .foreignKey "D" "E" "e" .oneToOne,
    .foreignKey "E" "D" "d" .oneToOne]⟩

theorem discovery_tangledGraph : tangledGraph.discovery = ["A", "C", "B", "F", "D", "E"] := by
  decide

theorem met_tangledGraph :
    Ranking.met (Adjacency.of tangledGraph) = ["A", "Absent", "C", "B", "F"] := by
  rw [Ranking.met_eq]
  decide

/-- Its ranks in schema order. -/
theorem rankOf_tangledGraph :
    tangledGraph.ids.map (Ranking.of (Adjacency.of tangledGraph)).rankOf = [0, 1, 1, 0, 0, 2] := by
  have hids : tangledGraph.ids = ["A", "B", "C", "D", "E", "F"] := by decide
  rw [hids]
  simp only [List.map_cons, List.map_nil, Ranking.rankOf_of, met_tangledGraph]
  decide

end SchemaAtlas
