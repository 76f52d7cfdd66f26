/-
Ranks and walks from the sources, in graphs without cycles. The rank of
a schema is the length of some walk that leads to it from a source
(`rankOf_mem_depths`): what the walk of the ranking passes on is always
one relationship longer than what it took from the queue.

It need not be the length of the longest such walk. A schema passes on
the rank it has when it is taken from the queue, and it may be raised
later. Ranks are the greatest lengths exactly if every relationship goes
to a higher rank (`isGreatest_iff_ascends`), and they are so whenever
each schema is met behind all that lead to it (`ascends_of_inOrder`).
The smallest graph where they are not has four schemas (`lateGraph`).

- `SchemaGraph.depths`: the lengths of the walks from the sources.
- `rank_mem_depths`: ranks of a layout as lengths.
- `not_isGreatest_lateGraph`: a schema that is raised too late.
-/
import Mathlib.Data.Fintype.Card
import Mathlib.Data.Set.Finite.Basic
import Mathlib.Order.Bounds.Defs
import SchemaAtlas.Layout.Basic
import SchemaAtlas.Proofs.Layout.Walk

namespace SchemaAtlas

open Relation

-- ==================================================== walks from sources

namespace SchemaGraph

/-- Relationships, as many as the number says, lead from `u` to the id. -/
inductive Trail (g : SchemaGraph) (u : String) : Nat → String → Prop
  | start : Trail g u 0 u
  | step {n : Nat} {v w : String} : Trail g u n v → g.Links v w → Trail g u (n + 1) w

/-- A schema at which no relationship ends. -/
def IsSource (g : SchemaGraph) (u : String) : Prop :=
  u ∈ g.ids ∧ ∀ v, ¬ g.Links v u

/-- The lengths of the walks from a source to the id. -/
def depths (g : SchemaGraph) (v : String) : Set Nat :=
  {n | ∃ u, g.IsSource u ∧ g.Trail u n v}

/-- Relationships start at schemas and make up no cycle. -/
structure IsDag (g : SchemaGraph) : Prop where
  contains_source : ∀ r ∈ g.relationships, g.contains r.source = true
  acyclic : ∀ v, ¬ g.OnCycle v

/-- Relationships between schemas go to a higher rank. -/
def Ascends (g : SchemaGraph) (rank : String → Nat) : Prop :=
  ∀ u v, g.Links u v → v ∈ g.ids → rank u < rank v

/-- Each id stands behind all ids that lead to it. -/
def InOrder (g : SchemaGraph) (order : List String) : Prop :=
  ∀ us v vs, order = us ++ v :: vs → ∀ u, g.Links u v → u ∈ us

variable {g : SchemaGraph}

theorem mem_ids_of_links (h : ∀ r ∈ g.relationships, g.contains r.source = true) {u v : String}
    (huv : g.Links u v) : u ∈ g.ids := by
  obtain ⟨r, hr, rfl, -⟩ := huv
  exact SchemaGraph.mem_ids.2 (h r hr)

theorem IsDag.mem_ids (h : g.IsDag) {u v : String} (huv : g.Links u v) : u ∈ g.ids :=
  mem_ids_of_links h.contains_source huv

/-- Every schema is reached from a source. -/
theorem IsDag.exists_source (h : g.IsDag) {v : String} (hv : v ∈ g.ids) :
    ∃ u, g.IsSource u ∧ g.Reaches u v := by
  -- without a cycle, going back along relationships must end among finitely many schemas
  let Above : {id // id ∈ g.ids} → {id // id ∈ g.ids} → Prop := fun x y => TransGen g.Links x.1 y.1
  have htrans : IsTrans _ Above := ⟨fun _ _ _ hxy hyz => TransGen.trans hxy hyz⟩
  have hirrefl : Std.Irrefl Above := ⟨fun x hx => h.acyclic x.1 hx⟩
  have hfinite : Finite {id // id ∈ g.ids} := g.ids.finite_toSet.to_subtype
  have hwf : WellFounded Above := Finite.wellFounded_of_trans_of_irrefl Above
  suffices key : ∀ x : {id // id ∈ g.ids}, ∃ u, g.IsSource u ∧ g.Reaches u x.1 from key ⟨v, hv⟩
  intro x
  induction x using hwf.induction with
  | _ x ih =>
      by_cases hx : ∃ u, g.Links u x.1
      · obtain ⟨u, hu⟩ := hx
        obtain ⟨s, hs, hsu⟩ := ih ⟨u, h.mem_ids hu⟩ (TransGen.single hu)
        exact ⟨s, hs, ReflTransGen.tail hsu hu⟩
      · exact ⟨x.1, ⟨x.2, fun u hu => hx ⟨u, hu⟩⟩, ReflTransGen.refl⟩

/-- Numbers that grow along relationships rule out cycles. -/
theorem acyclic_of_lt {height : String → Nat}
    (h : ∀ r ∈ g.relationships, height r.source < height r.target) (v : String) :
    ¬ g.OnCycle v := by
  have hlinks : ∀ u v, g.Links u v → height u < height v := by
    rintro u v ⟨r, hr, rfl, rfl⟩
    exact h r hr
  have hgrows : ∀ {u v : String}, TransGen g.Links u v → height u < height v := by
    intro u v huv
    induction huv with
    | single hlink => exact hlinks _ _ hlink
    | tail _ hlink ih => exact Nat.lt_trans ih (hlinks _ _ hlink)
  intro hcycle
  exact Nat.lt_irrefl _ (hgrows hcycle)

/-- Ranks that ascend are at least as great as any length. -/
theorem Ascends.le_of_trail {rank : String → Nat} (h : g.Ascends rank) (hdag : g.IsDag)
    {u v : String} {n : Nat} (ht : g.Trail u n v) (hv : v ∈ g.ids) : n ≤ rank v := by
  induction ht with
  | start => exact Nat.zero_le _
  | step _ hlink ih =>
      have hsource := ih (hdag.mem_ids hlink)
      have hup := h _ _ hlink hv
      omega

/-- Ranks that are lengths are the greatest ones exactly if they
ascend. -/
theorem isGreatest_iff_ascends {rank : String → Nat} (hdag : g.IsDag)
    (hrank : ∀ v ∈ g.ids, rank v ∈ g.depths v) :
    (∀ v ∈ g.ids, IsGreatest (g.depths v) (rank v)) ↔ g.Ascends rank := by
  constructor
  · intro h u v huv hv
    obtain ⟨s, hs, ht⟩ := hrank u (hdag.mem_ids huv)
    exact (h v hv).2 ⟨s, hs, ht.step huv⟩
  · intro h v hv
    refine ⟨hrank v hv, ?_⟩
    rintro n ⟨s, -, ht⟩
    exact h.le_of_trail hdag ht hv

end SchemaGraph

-- ==================================================== ranks are lengths

namespace Ranking

variable {g : SchemaGraph}

theorem mem_roots_of {u : String} : u ∈ (Adjacency.of g).roots ↔ g.IsSource u := by
  rw [(Adjacency.areRoots_of g).mem_iff, ← SchemaGraph.mem_ids]
  refine and_congr_right fun _ => ?_
  simp only [SchemaGraph.incoming, decide_eq_true_eq, List.filter_eq_nil_iff, SchemaGraph.Links]
  constructor
  · rintro h v ⟨r, hr, -, ht⟩
    exact h r hr ht
  · intro h r hr ht
    exact h r.source ⟨r, hr, rfl, ht⟩

/-- Taking an id from the queue leaves a rank alone or makes it one more
than the length of a walk to that id. -/
theorem rankIn_passOn_cases {ranks : OrderedMap String Nat} {id : String}
    (hid : ∀ v, g.Links id v → rankIn ranks id ∈ g.depths id) (v : String) :
    rankIn (passOn (Adjacency.of g) ranks id) v = rankIn ranks v
      ∨ rankIn (passOn (Adjacency.of g) ranks id) v ∈ g.depths v := by
  rw [rankIn_passOn]
  split
  · next h =>
      have hlink : g.Links id v := Adjacency.mem_successors_of.1 h.2
      obtain ⟨s, hs, ht⟩ := hid v hlink
      rcases Nat.le_total (rankIn ranks id + 1) (rankIn ranks v) with hle | hle
      · exact Or.inl (Nat.max_eq_right hle)
      · rw [Nat.max_eq_left hle]
        exact Or.inr ⟨s, hs, ht.step hlink⟩
  · exact Or.inl rfl

/-- The walk keeps this: a rank is zero or a length, and it is a length
for the schemas in the queue. -/
theorem walk_depths (hdag : g.IsDag) {ranks : OrderedMap String Nat} {met queue : List String}
    (hkeys : ranks.keys = g.ids)
    (hranks : ∀ v, rankIn ranks v = 0 ∨ rankIn ranks v ∈ g.depths v)
    (hqueue : ∀ v ∈ queue, v ∈ g.ids → rankIn ranks v ∈ g.depths v) :
    ∀ v, rankIn (walk (Adjacency.of g) ranks met queue).1 v = 0
      ∨ rankIn (walk (Adjacency.of g) ranks met queue).1 v ∈ g.depths v := by
  fun_induction walk (Adjacency.of g) ranks met queue with
  | case1 ranks met => exact hranks
  | case2 ranks met id queue targets new ih =>
      have hid : ∀ v, g.Links id v → rankIn ranks id ∈ g.depths id := fun v hv =>
        hqueue id List.mem_cons_self (hdag.mem_ids hv)
      have hcases := rankIn_passOn_cases hid
      apply ih
      · exact (keys_passOn ranks id).trans hkeys
      · intro v
        rcases hcases v with h | h
        · show rankIn (passOn _ ranks id) v = 0 ∨ rankIn (passOn _ ranks id) v ∈ g.depths v
          rw [h]
          exact hranks v
        · exact Or.inr h
      · intro v hv hids
        rcases hcases v with h | h
        · show rankIn (passOn _ ranks id) v ∈ g.depths v
          rw [h]
          rcases List.mem_append.1 hv with hv | hv
          · exact hqueue v (List.mem_cons_of_mem id hv) hids
          · -- a schema just met is above the one that leads to it, so it has a length
            have hsucc : v ∈ (Adjacency.of g).successors id := (mem_fresh.1 hv).1
            have hraised := rankIn_lt_foldl [] [] (hkeys.symm ▸ hids) hsucc
            rcases hranks v with hzero | hdepth
            · have hpos : rankIn ranks id < rankIn (passOn (Adjacency.of g) ranks id) v := hraised
              omega
            · exact hdepth
        · exact h

variable (hdag : g.IsDag)
include hdag

/-- Every schema is met. -/
theorem mem_met_of_mem_ids {v : String} (hv : v ∈ g.ids) : v ∈ met (Adjacency.of g) := by
  obtain ⟨u, hu, huv⟩ := hdag.exists_source hv
  refine mem_met (roots_subset_met u (mem_roots_of.2 hu)) ?_
  have hlinks : (fun u v => v ∈ (Adjacency.of g).successors u) = g.Links := by
    funext u v
    exact propext Adjacency.mem_successors_of
  rw [hlinks]
  exact huv

omit hdag in
theorem rankOf_of (v : String) :
    (of (Adjacency.of g)).rankOf v =
      rankIn ((met (Adjacency.of g)).foldl (passOn (Adjacency.of g)) (ground (Adjacency.of g))) v := by
  rw [← ranks_of]
  rfl

omit hdag in
theorem keys_ground_of : (ground (Adjacency.of g)).keys = g.ids := by
  rw [keys_ground (Adjacency.nodup_ids_of g), Adjacency.ids_of]

omit hdag in
/-- Every schema has a rank. -/
theorem keys_of : (of (Adjacency.of g)).ranks.keys = g.ids := by
  rw [keys_ranks_of (Adjacency.nodup_ids_of g), Adjacency.ids_of]

/-- A schema to which a relationship leads is not on the first rank. -/
theorem rankOf_pos {u v : String} (huv : g.Links u v) (hv : v ∈ g.ids) :
    0 < (of (Adjacency.of g)).rankOf v := by
  obtain ⟨us, vs, hmet⟩ := List.append_of_mem (mem_met_of_mem_ids hdag (hdag.mem_ids huv))
  have hraised := rankIn_lt_foldl us vs (keys_ground_of.symm ▸ hv)
    (Adjacency.mem_successors_of.2 huv)
  rw [← hmet, ← rankOf_of] at hraised
  exact Nat.zero_lt_of_lt hraised

/-- The rank of a schema is the length of a walk from a source. -/
theorem rankOf_mem_depths {v : String} (hv : v ∈ g.ids) :
    (of (Adjacency.of g)).rankOf v ∈ g.depths v := by
  have hsource : g.IsSource v → 0 ∈ g.depths v := fun h => ⟨v, h, .start⟩
  have hwalk : (of (Adjacency.of g)).rankOf v = 0 ∨
      (of (Adjacency.of g)).rankOf v ∈ g.depths v := by
    refine walk_depths hdag keys_ground_of ?_ ?_ v
    · exact fun v => Or.inl (rankIn_ground v)
    · intro u hu _
      have hroot : g.IsSource u := mem_roots_of.1 hu
      show rankIn (ground _) u ∈ g.depths u
      rw [rankIn_ground]
      exact ⟨u, hroot, .start⟩
  rcases hwalk with hzero | hdepth
  · rw [hzero]
    refine hsource ⟨hv, fun u hu => ?_⟩
    have hpos := rankOf_pos hdag hu hv
    omega
  · exact hdepth

-- ==================================================== the order of meeting

omit hdag in
/-- What stands in front of a schema in the order was met before it. -/
theorem order_of_met {us vs : List String} {u : String} (hu : u ∈ g.ids)
    (hmet : met (Adjacency.of g) = us ++ u :: vs) :
    ∃ ws, (of (Adjacency.of g)).order = us.filter (Adjacency.of g).contains ++ u :: ws := by
  let a := Adjacency.of g
  have hcontains : a.contains u = true := by
    rw [Adjacency.contains_of]
    exact SchemaGraph.mem_ids.1 hu
  have hfront : (met a).filter a.contains =
      us.filter a.contains ++ u :: vs.filter a.contains := by
    rw [hmet, List.filter_append, List.filter_cons_of_pos hcontains]
  refine ⟨vs.filter a.contains ++ a.ids.filter fun id => !(met a).contains id, ?_⟩
  show (met a).filter a.contains ++ _ = _
  rw [hfront, List.append_assoc]
  rfl

/-- Where each schema is met behind all that lead to it, it has its final
rank when it is taken, and relationships go to higher ranks. -/
theorem ascends_of_inOrder (horder : g.InOrder (of (Adjacency.of g)).order) :
    g.Ascends (of (Adjacency.of g)).rankOf := by
  intro u v huv hv
  let a := Adjacency.of g
  have hu : u ∈ g.ids := hdag.mem_ids huv
  obtain ⟨us, vs, hmet⟩ := List.append_of_mem (mem_met_of_mem_ids hdag hu)
  obtain ⟨ws, hws⟩ := order_of_met hu hmet
  have hnodup : (met a).Nodup := nodup_met (Adjacency.nodup_ids_of g)
  have hfinal : (of a).rankOf u = rankIn (us.foldl (passOn a) (ground a)) u := by
    rw [rankOf_of, hmet, List.foldl_append]
    apply rankIn_foldl_of_not_mem
    intro w hw hwu
    have hbefore := horder _ u _ hws w (Adjacency.mem_successors_of.1 hwu)
    have hfront : w ∈ us := (List.mem_filter.1 hbefore).1
    rw [hmet] at hnodup
    exact (List.nodup_append.1 hnodup).2.2 w hfront w hw rfl
  have hraised := rankIn_lt_foldl us vs (keys_ground_of.symm ▸ hv)
    (Adjacency.mem_successors_of.2 huv)
  rw [← hmet, ← rankOf_of] at hraised
  rw [hfinal]
  exact hraised

end Ranking

-- ==================================================== layouts

namespace Layout

variable {g : SchemaGraph}

theorem of_eq_ok {options : LayoutOptions} (h : options.spacing.fault? = none) :
    Layout.of options g = .ok (arrange options g) := by
  unfold Layout.of
  rw [h]

theorem nodes_arrange (options : LayoutOptions) :
    (arrange options g).nodes =
      g.ids.map (place options.spacing (Ranking.of (Adjacency.of g))) := by
  show (Ranking.of (Adjacency.of g)).ranks.keys.map _ = _
  rw [Ranking.keys_of]

/-- A layout places every schema, at the rank that the ranking gives. -/
theorem map_nodes_arrange (options : LayoutOptions) :
    (arrange options g).nodes.map (fun n => (n.id, n.rank)) =
      g.ids.map fun id => (id, (Ranking.of (Adjacency.of g)).rankOf id) := by
  rw [nodes_arrange, List.map_map]
  rfl

theorem forall_nodes_arrange {options : LayoutOptions} {P : String → Nat → Prop} :
    (∀ n ∈ (arrange options g).nodes, P n.id n.rank) ↔
      ∀ id ∈ g.ids, P id ((Ranking.of (Adjacency.of g)).rankOf id) := by
  have hpairs : (∀ n ∈ (arrange options g).nodes, P n.id n.rank) ↔
      ∀ p ∈ (arrange options g).nodes.map (fun n => (n.id, n.rank)), P p.1 p.2 := by
    simp
  rw [hpairs, map_nodes_arrange]
  simp

/-- In a graph without cycles the rank of each schema is the length of a
walk from a source. It is the greatest such length for every schema
exactly if relationships between schemas go to higher ranks, and they do
if each schema is met behind all that lead to it. -/
theorem rank_mem_depths {options : LayoutOptions} (hspacing : options.spacing.fault? = none)
    (hdag : g.IsDag) :
    ∃ l, Layout.of options g = .ok l ∧ l.nodes.map LayoutNode.id = g.ids
      ∧ (∀ n ∈ l.nodes, n.rank ∈ g.depths n.id)
      ∧ ((∀ n ∈ l.nodes, IsGreatest (g.depths n.id) n.rank) ↔
          ∀ m ∈ l.nodes, ∀ n ∈ l.nodes, g.Links m.id n.id → m.rank < n.rank)
      ∧ (g.InOrder (Ranking.of (Adjacency.of g)).order →
          ∀ n ∈ l.nodes, IsGreatest (g.depths n.id) n.rank) := by
  let rank := (Ranking.of (Adjacency.of g)).rankOf
  have hdepths : ∀ id ∈ g.ids, rank id ∈ g.depths id := fun _ => Ranking.rankOf_mem_depths hdag
  have hgreatest : (∀ n ∈ (arrange options g).nodes, IsGreatest (g.depths n.id) n.rank) ↔
      g.Ascends rank :=
    (forall_nodes_arrange (P := fun id r => IsGreatest (g.depths id) r)).trans
      (SchemaGraph.isGreatest_iff_ascends hdag hdepths)
  refine ⟨arrange options g, of_eq_ok hspacing, ?_, ?_, ?_, ?_⟩
  · have hids := congrArg (List.map Prod.fst) (map_nodes_arrange (g := g) options)
    rw [List.map_map, List.map_map] at hids
    exact hids.trans (List.map_id g.ids)
  · exact (forall_nodes_arrange (P := fun id r => r ∈ g.depths id)).2 hdepths
  · rw [hgreatest, forall_nodes_arrange
      (P := fun u r => ∀ n ∈ (arrange options g).nodes, g.Links u n.id → r < n.rank)]
    constructor
    · intro h u _
      rw [forall_nodes_arrange (P := fun v r => g.Links u v → rank u < r)]
      exact fun v hv huv => h u v huv hv
    · intro h u v huv hv
      have hu := h u (hdag.mem_ids huv)
      rw [forall_nodes_arrange (P := fun v r => g.Links u v → rank u < r)] at hu
      exact hu v hv huv
  · intro horder
    exact hgreatest.2 (Ranking.ascends_of_inOrder hdag horder)

-- ==================================================== raised too late

/-- Four schemas of which the third is raised after it was taken from
the queue. -/
def lateGraph : SchemaGraph :=
  ⟨[⟨"A", "ASchema", []⟩, ⟨"B", "BSchema", []⟩, ⟨"C", "CSchema", []⟩, ⟨"D", "DSchema", []⟩],
   [.foreignKey "A" "C" "c" .oneToOne, .foreignKey "A" "B" "b" .oneToOne,
    .foreignKey "B" "C" "c" .oneToOne, .foreignKey "C" "D" "d" .oneToOne]⟩

theorem isDag_lateGraph : lateGraph.IsDag := by
  let height := fun id => ["A", "B", "C", "D"].idxOf id
  have hgrows : ∀ r ∈ lateGraph.relationships, height r.source < height r.target := by decide
  exact ⟨by decide, SchemaGraph.acyclic_of_lt hgrows⟩

theorem met_lateGraph : Ranking.met (Adjacency.of lateGraph) = ["A", "C", "B", "D"] := by
  have hroots : (Adjacency.of lateGraph).roots = ["A"] := by decide
  have hA : (Adjacency.of lateGraph).successors "A" = ["C", "B"] := by decide
  have hB : (Adjacency.of lateGraph).successors "B" = ["C"] := by decide
  have hC : (Adjacency.of lateGraph).successors "C" = ["D"] := by decide
  have hD : (Adjacency.of lateGraph).successors "D" = [] := by decide
  simp [Ranking.met, hroots, Ranking.walk, hA, hB, hC, hD, Ranking.fresh, List.eraseDups_cons]

theorem nodes_lateGraph :
    (arrange {} lateGraph).nodes.map (fun n => (n.id, n.rank)) =
      [("A", 0), ("B", 1), ("C", 2), ("D", 2)] := by
  rw [map_nodes_arrange]
  simp only [Ranking.rankOf_of, met_lateGraph]
  decide

theorem rank_mem_depths_lateGraph :
    (({} : LayoutOptions).spacing.fault? = none ∧ lateGraph.IsDag) ∧
      ∃ l, Layout.of {} lateGraph = .ok l ∧ l.nodes.map LayoutNode.id = ["A", "B", "C", "D"]
        ∧ ∀ n ∈ l.nodes, n.rank ∈ lateGraph.depths n.id := by
  have hspacing : ({} : LayoutOptions).spacing.fault? = none := by decide
  have hids : lateGraph.ids = ["A", "B", "C", "D"] := by decide
  obtain ⟨l, hl, hnodes, hranks, -⟩ := rank_mem_depths hspacing isDag_lateGraph
  exact ⟨⟨hspacing, isDag_lateGraph⟩, l, hl, hnodes.trans hids, hranks⟩

/-- `D` is two relationships behind `A` by its rank, and three by the
longest walk; it shares its rank with `C`, which leads to it. -/
theorem not_isGreatest_lateGraph :
    ((lateGraph.schemas.map SchemaNode.id).Nodup ∧ lateGraph.IsDag) ∧
      ∃ l, Layout.of {} lateGraph = .ok l
        ∧ l.nodes.map (fun n => (n.id, n.rank)) = [("A", 0), ("B", 1), ("C", 2), ("D", 2)]
        ∧ (¬ ∀ n ∈ l.nodes, IsGreatest (lateGraph.depths n.id) n.rank)
        ∧ ¬ ∀ m ∈ l.nodes, ∀ n ∈ l.nodes, lateGraph.Links m.id n.id → m.rank < n.rank := by
  have hspacing : ({} : LayoutOptions).spacing.fault? = none := by decide
  have hAB : lateGraph.Links "A" "B" :=
    ⟨.foreignKey "A" "B" "b" .oneToOne, by decide, rfl, rfl⟩
  have hBC : lateGraph.Links "B" "C" :=
    ⟨.foreignKey "B" "C" "c" .oneToOne, by decide, rfl, rfl⟩
  have hCD : lateGraph.Links "C" "D" :=
    ⟨.foreignKey "C" "D" "d" .oneToOne, by decide, rfl, rfl⟩
  have hsource : lateGraph.IsSource "A" := Ranking.mem_roots_of.1 (by decide)
  have htrail : lateGraph.Trail "A" 3 "D" := ((SchemaGraph.Trail.start.step hAB).step hBC).step hCD
  have hmem : ∀ p ∈ [("A", 0), ("B", 1), ("C", 2), ("D", 2)],
      ∃ n ∈ (arrange {} lateGraph).nodes, n.id = p.1 ∧ n.rank = p.2 := by
    intro p hp
    rw [← nodes_lateGraph] at hp
    obtain ⟨n, hn, rfl⟩ := List.mem_map.1 hp
    exact ⟨n, hn, rfl, rfl⟩
  obtain ⟨c, hc, hcid, hcrank⟩ := hmem ("C", 2) (by decide)
  obtain ⟨d, hd, hdid, hdrank⟩ := hmem ("D", 2) (by decide)
  refine ⟨⟨by decide, isDag_lateGraph⟩, arrange {} lateGraph, of_eq_ok hspacing, nodes_lateGraph,
    ?_, ?_⟩
  · intro h
    have hdepth : 3 ∈ lateGraph.depths d.id := ⟨"A", hsource, by rw [hdid]; exact htrail⟩
    have hbound := (h d hd).2 hdepth
    omega
  · intro h
    have hup := h c hc d hd (by rw [hcid, hdid]; exact hCD)
    omega

end Layout

end SchemaAtlas
