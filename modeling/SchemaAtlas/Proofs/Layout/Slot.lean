/-
The slots of a layout. The schemas of a rank take the slots from zero on,
one each, in the order in which the graph is discovered; nothing is lost
between the walk, whose ids need not all be schemas, and the columns, so
every schema has a place of its own (`exists_slotted`).

Coordinates are computed in binary32. The same formula over the rational
numbers spreads the slots of a rank evenly around zero
(`sum_height_eq_zero`, `height_sub_height`).

- `Layout.IsSlotted`: slots that count the schemas of a rank.
- `Layout.coordinates`: the formula, over any numbers.
- `exists_slotted`: the slots and the coordinates of a layout.
-/
import Mathlib.Algebra.BigOperators.Group.List.Basic
import Mathlib.Algebra.Order.Field.Rat
import Mathlib.Tactic.Ring
import SchemaAtlas.Proofs.Layout.Breadth

namespace SchemaAtlas

-- ==================================================== places in lists

/-- In a list without duplicates each element stands at its own place. -/
theorem map_idxOf_self {ids : List String} (h : ids.Nodup) :
    ids.map (fun id => ids.idxOf id) = List.range ids.length := by
  apply List.ext_getElem
  · rw [List.length_map, List.length_range]
  · intro i hi _
    rw [List.getElem_map, List.getElem_range, h.idxOf_getElem]

/-- What is left of a list keeps its order. -/
theorem idxOf_filter_lt_iff {p : String → Bool} {u v : String} (hu : p u = true) (hv : p v = true)
    (ids : List String) :
    (ids.filter p).idxOf u < (ids.filter p).idxOf v ↔ ids.idxOf u < ids.idxOf v := by
  induction ids with
  | nil => exact Iff.rfl
  | cons id ids ih =>
      by_cases hid : p id = true
      · rw [List.filter_cons_of_pos hid]
        simp only [List.idxOf_cons, cond_eq_ite]
        split <;> split <;> omega
      · have hne : ∀ w, p w = true → (id == w) = false := by
          rintro w hw
          rw [beq_eq_false_iff_ne]
          rintro rfl
          exact hid hw
        rw [List.filter_cons_of_neg hid, ih]
        simp only [List.idxOf_cons, hne u hu, hne v hv, cond_false]
        omega

-- ==================================================== columns

namespace Ranking

variable (g : SchemaGraph)

/-- The order holds every schema once and no other id. -/
theorem order_perm : (of (Adjacency.of g)).order.Perm g.ids := by
  let a := Adjacency.of g
  have hids : a.ids.Nodup := Adjacency.nodup_ids_of g
  have hnodup : (of a).order.Nodup := by
    rw [order_of]
    refine List.nodup_append.2 ⟨(nodup_met hids).filter _, hids.filter _, ?_⟩
    rintro u hu _ hv rfl
    have hmet : u ∈ met a := List.mem_of_mem_filter hu
    have hnot := (List.mem_filter.1 hv).2
    rw [List.contains_iff_mem.2 hmet] at hnot
    cases hnot
  refine (List.perm_ext_iff_of_nodup hnodup g.nodup_ids).2 fun id => ?_
  rw [order_of, ← Adjacency.ids_of, List.mem_append, List.mem_filter, List.mem_filter,
    Adjacency.contains, List.contains_iff_mem]
  by_cases hmet : id ∈ met a
  · simp [hmet, a]
  · simp [hmet, a]

/-- The schemas of a rank take the slots from zero on, one each. -/
theorem slots_perm (rank : Nat) :
    ((g.ids.filter fun id => (of (Adjacency.of g)).rankOf id = rank).map
        (of (Adjacency.of g)).slot).Perm
      (List.range (g.ids.filter fun id => (of (Adjacency.of g)).rankOf id = rank).length) := by
  let r := of (Adjacency.of g)
  have hcolumn : (r.column rank).Perm (g.ids.filter fun id => r.rankOf id = rank) :=
    (order_perm g).filter _
  have hnodup : (r.column rank).Nodup := hcolumn.nodup_iff.2 (g.nodup_ids.filter _)
  have hslots : (r.column rank).map r.slot = List.range (r.column rank).length := by
    rw [← map_idxOf_self hnodup]
    refine List.map_congr_left fun id hid => ?_
    have hrank : r.rankOf id = rank := of_decide_eq_true (List.mem_filter.1 hid).2
    show (r.column (r.rankOf id)).idxOf id = _
    rw [hrank]
  rw [← hcolumn.length_eq, ← hslots]
  exact hcolumn.symm.map r.slot

/-- On a rank, slots follow the order of discovery. -/
theorem slot_lt_iff {u v : String}
    (h : (of (Adjacency.of g)).rankOf u = (of (Adjacency.of g)).rankOf v) :
    (of (Adjacency.of g)).slot u < (of (Adjacency.of g)).slot v ↔
      g.discovery.idxOf u < g.discovery.idxOf v := by
  unfold slot column
  rw [h, order_eq_discovery]
  exact idxOf_filter_lt_iff (decide_eq_true h) (decide_eq_true rfl) _

end Ranking

-- ==================================================== layouts

namespace Layout

/-- The nodes of a rank. -/
def onRank (l : Layout) (rank : Nat) : List LayoutNode :=
  l.nodes.filter fun n => n.rank = rank

/-- The slots of each rank count its nodes, in the given order. -/
structure IsSlotted (l : Layout) (slot : LayoutNode → Nat) (order : List String) : Prop where
  /-- On each rank the slots are those from zero on, one for each node. -/
  counted (rank : Nat) : ((l.onRank rank).map slot).Perm (List.range (l.onRank rank).length)
  /-- On one rank, an earlier slot is an earlier place in the order. -/
  ordered (rank : Nat) : ∀ m ∈ l.onRank rank, ∀ n ∈ l.onRank rank,
    slot m < slot n ↔ order.idxOf m.id < order.idxOf n.id

/-- The place of slot `slot` among `count` on a rank, computed with numbers
of any kind. -/
def coordinates {α : Type} [Mul α] [Sub α] [Div α] [OfNat α 1] [OfNat α 2] (number : Nat → α)
    (rankGap nodeGap : α) (rank slot count : Nat) : α × α :=
  (number rank * rankGap, (number slot - (number count - 1) / 2) * nodeGap)

section

variable {l : Layout} {slot : LayoutNode → Nat} {order : List String}

theorem mem_onRank {rank : Nat} {n : LayoutNode} :
    n ∈ l.onRank rank ↔ n ∈ l.nodes ∧ n.rank = rank := by
  rw [onRank, List.mem_filter, decide_eq_true_eq]

/-- No two nodes share rank and slot. -/
theorem IsSlotted.nodup (h : l.IsSlotted slot order) :
    (l.nodes.map fun n => (n.rank, slot n)).Nodup := by
  refine List.pairwise_map.2 (List.pairwise_iff_forall_sublist.2 fun {m n} hmn heq => ?_)
  obtain ⟨hrank, hslot⟩ := Prod.mk.inj heq
  have hboth : ([m, n].filter fun n' => n'.rank = n.rank) = [m, n] := by
    simp [hrank]
  have hcolumn : List.Sublist [m, n] (l.onRank n.rank) := hboth ▸ hmn.filter _
  have hnodup : ((l.onRank n.rank).map slot).Nodup :=
    (h.counted n.rank).nodup_iff.2 List.nodup_range
  have hpair : [slot m, slot n].Nodup := hnodup.sublist (hcolumn.map slot)
  simp [hslot] at hpair

variable (l slot)

/-- The coordinates of a node in exact arithmetic. -/
def exact (rankGap nodeGap : ℚ) (n : LayoutNode) : ℚ × ℚ :=
  coordinates (fun k => (k : ℚ)) rankGap nodeGap n.rank (slot n) (l.onRank n.rank).length

variable {l slot}

/-- Slots spread evenly around the middle of their rank. -/
theorem sum_spread (count : Nat) (middle gap : ℚ) :
    ((List.range count).map fun k : Nat => ((k : ℚ) - middle) * gap).sum =
      (((count : ℚ) - 1) / 2 - middle) * count * gap := by
  induction count with
  | zero => simp
  | succ count ih =>
      rw [List.range_succ, List.map_append, List.sum_append, ih]
      simp only [List.map_cons, List.map_nil, List.sum_singleton, Nat.cast_succ]
      ring

/-- The heights of a rank add up to zero. -/
theorem sum_height_eq_zero (h : l.IsSlotted slot order) (rankGap nodeGap : ℚ) (rank : Nat) :
    ((l.onRank rank).map fun n => (l.exact slot rankGap nodeGap n).2).sum = 0 := by
  let count := (l.onRank rank).length
  let height := fun k : Nat => ((k : ℚ) - ((count : ℚ) - 1) / 2) * nodeGap
  have hheights : (l.onRank rank).map (fun n => (l.exact slot rankGap nodeGap n).2) =
      ((l.onRank rank).map slot).map height := by
    rw [List.map_map]
    refine List.map_congr_left fun n hn => ?_
    obtain rfl := (mem_onRank.1 hn).2
    rfl
  rw [hheights, ((h.counted rank).map height).sum_eq]
  show ((List.range count).map height).sum = 0
  rw [sum_spread]
  ring

/-- Neighbours on a rank are one distance apart. -/
theorem height_sub_height (rankGap nodeGap : ℚ) {m n : LayoutNode} (hrank : m.rank = n.rank)
    (hslot : slot n = slot m + 1) :
    (l.exact slot rankGap nodeGap n).2 - (l.exact slot rankGap nodeGap m).2 = nodeGap := by
  unfold exact coordinates
  rw [hrank, hslot]
  push_cast
  ring

end

variable {g : SchemaGraph}

theorem onRank_arrange (options : LayoutOptions) (rank : Nat) :
    (arrange options g).onRank rank =
      (g.ids.filter fun id => (Ranking.of (Adjacency.of g)).rankOf id = rank).map
        (place options.spacing (Ranking.of (Adjacency.of g))) := by
  rw [onRank, nodes_arrange, List.filter_map]
  rfl

/-- The slots of a layout count the schemas of each rank in the order in
which the graph is discovered. -/
theorem isSlotted_arrange (options : LayoutOptions) :
    (arrange options g).IsSlotted (fun n => (Ranking.of (Adjacency.of g)).slot n.id)
      g.discovery where
  counted rank := by
    rw [onRank_arrange, List.map_map, List.length_map]
    exact Ranking.slots_perm g rank
  ordered rank m hm n hn := by
    rw [onRank_arrange] at hm hn
    obtain ⟨u, hu, rfl⟩ := List.mem_map.1 hm
    obtain ⟨v, hv, rfl⟩ := List.mem_map.1 hn
    have hrank : (Ranking.of (Adjacency.of g)).rankOf u =
        (Ranking.of (Adjacency.of g)).rankOf v :=
      (of_decide_eq_true (List.mem_filter.1 hu).2).trans
        (of_decide_eq_true (List.mem_filter.1 hv).2).symm
    exact Ranking.slot_lt_iff g hrank

/-- A node stands where its rank and slot put it. -/
theorem position_arrange (options : LayoutOptions) :
    ∀ n ∈ (arrange options g).nodes, (n.position.x, n.position.y) =
      coordinates Float32.ofNat options.spacing.rank options.spacing.node n.rank
        ((Ranking.of (Adjacency.of g)).slot n.id) ((arrange options g).onRank n.rank).length := by
  intro n hn
  rw [nodes_arrange] at hn
  obtain ⟨id, -, rfl⟩ := List.mem_map.1 hn
  have hcount : ((arrange options g).onRank ((Ranking.of (Adjacency.of g)).rankOf id)).length =
      ((Ranking.of (Adjacency.of g)).column ((Ranking.of (Adjacency.of g)).rankOf id)).length := by
    rw [onRank_arrange, List.length_map]
    exact ((Ranking.order_perm g).filter _).length_eq.symm
  exact congrArg (coordinates Float32.ofNat options.spacing.rank options.spacing.node
    ((Ranking.of (Adjacency.of g)).rankOf id) ((Ranking.of (Adjacency.of g)).slot id)) hcount.symm

/-- A layout places every schema, in schema order. The slots of each rank
count its schemas in the order in which the graph is discovered, and give
their coordinates; in exact arithmetic a rank is one column, its heights
add up to zero and its neighbours are one distance apart. -/
theorem exists_slotted {options : LayoutOptions} (hspacing : options.spacing.fault? = none)
    (g : SchemaGraph) :
    let slot := fun n : LayoutNode => (Ranking.of (Adjacency.of g)).slot n.id
    ∃ l, Layout.of options g = .ok l ∧ l.nodes.map LayoutNode.id = g.ids
      ∧ l.IsSlotted slot g.discovery
      ∧ (l.nodes.map fun n => (n.rank, slot n)).Nodup
      ∧ (∀ n ∈ l.nodes, (n.position.x, n.position.y) =
          coordinates Float32.ofNat options.spacing.rank options.spacing.node n.rank (slot n)
            (l.onRank n.rank).length)
      ∧ ∀ (rankGap nodeGap : ℚ) (rank : Nat),
          (∀ n ∈ l.onRank rank, (l.exact slot rankGap nodeGap n).1 = rank * rankGap)
          ∧ ((l.onRank rank).map fun n => (l.exact slot rankGap nodeGap n).2).sum = 0
          ∧ ∀ m ∈ l.onRank rank, ∀ n ∈ l.onRank rank, slot n = slot m + 1 →
              (l.exact slot rankGap nodeGap n).2 - (l.exact slot rankGap nodeGap m).2 =
                nodeGap := by
  intro slot
  have hslotted : (arrange options g).IsSlotted slot g.discovery := isSlotted_arrange options
  refine ⟨arrange options g, of_eq_ok hspacing, ?_, hslotted, hslotted.nodup,
    position_arrange options, fun rankGap nodeGap rank => ⟨?_, ?_, ?_⟩⟩
  · rw [nodes_arrange, List.map_map]
    exact List.map_id g.ids
  · intro n hn
    obtain rfl := (mem_onRank.1 hn).2
    rfl
  · exact sum_height_eq_zero hslotted rankGap nodeGap rank
  · intro m hm n hn hnext
    have hrank : m.rank = n.rank := (mem_onRank.1 hm).2.trans (mem_onRank.1 hn).2.symm
    exact height_sub_height rankGap nodeGap hrank hnext

/-- `D` and `E` stand behind `A` on the first rank, `B` behind `C` on the
second. -/
theorem exists_slotted_tangledGraph :
    ({} : LayoutOptions).spacing.fault? = none ∧
      ∃ l, Layout.of {} tangledGraph = .ok l
        ∧ l.nodes.map LayoutNode.id = ["A", "B", "C", "D", "E", "F"]
        ∧ l.IsSlotted (fun n => (Ranking.of (Adjacency.of tangledGraph)).slot n.id)
          ["A", "C", "B", "F", "D", "E"]
        ∧ l.nodes.map (fun n => (n.rank, (Ranking.of (Adjacency.of tangledGraph)).slot n.id)) =
          [(0, 0), (1, 1), (1, 0), (0, 1), (0, 2), (2, 0)] := by
  have hspacing : ({} : LayoutOptions).spacing.fault? = none := by decide
  have hids : tangledGraph.ids = ["A", "B", "C", "D", "E", "F"] := by decide
  obtain ⟨l, hl, hnodes, hslotted, -⟩ := exists_slotted hspacing tangledGraph
  obtain rfl : arrange {} tangledGraph = l := Except.ok.inj ((of_eq_ok hspacing).symm.trans hl)
  rw [discovery_tangledGraph] at hslotted
  refine ⟨hspacing, _, hl, hnodes.trans hids, hslotted, ?_⟩
  rw [nodes_arrange, List.map_map, hids]
  simp only [List.map_cons, List.map_nil, Function.comp_apply, place, Ranking.slot,
    Ranking.column, Ranking.order_eq_discovery, discovery_tangledGraph, Ranking.rankOf_of,
    met_tangledGraph]
  decide

end Layout

end SchemaAtlas
