/-
Finite coordinates. The check of the distances looks at each of them
alone, but coordinates are their products with ranks and with offsets
from the middle of a rank, which grow with the graph. A coordinate is
finite exactly if the product is below the limit of rounding; one that is
not is `null` in the document, although the distances were accepted.

Ranks and offsets are computed in binary32 as well. As long as a rank has
no more than 24 binary digits and neither has the count of its schemas,
this is done without rounding, so that the one rounding left is that of
the product, and exact arithmetic tells which coordinates are finite.

- `Layout.offset`, `Layout.represents_offset`: the offset of a slot.
- `Layout.isFinite_position_iff`: the coordinates that are finite;
  `Layout.not_isFinite_lateGraph` shows that some are not.
-/
import SchemaAtlas.Proofs.Decimal.Arithmetic
import SchemaAtlas.Proofs.Decimal.Numeral
import SchemaAtlas.Proofs.Layout.Slot

namespace SchemaAtlas

open Binary32

/-- Both coordinates are finite numbers. -/
def Point.IsFinite (p : Point) : Prop :=
  p.x.isFinite = true ∧ p.y.isFinite = true

/-- A number that is written like no value at all. -/
def Json.IsNull (x : Float32) : Prop :=
  ∀ style depth, Json.write style depth (.real x) = Json.write style depth .null

namespace Json

theorem isNull_iff (x : Float32) : IsNull x ↔ x.isFinite = false :=
  ⟨fun h => (write_real_eq_null_iff .compact 0 x).1 (h .compact 0),
    fun h style depth => (write_real_eq_null_iff style depth x).2 h⟩

end Json

namespace Layout

-- ==================================================== offsets

/-- How far a slot stands from the middle of its rank, in node distances,
as it is computed. -/
def offset (slot count : ℕ) : Float32 :=
  Float32.ofNat slot - (Float32.ofNat count - 1) / 2

/-- An offset is computed without rounding. -/
theorem represents_offset {slot count : ℕ} (hslot : slot < count) (hcount : count < 2 ^ 24) :
    Represents (offset slot count) (slot - (count - 1) / 2) := by
  have hlast : (count : ℚ) - 1 = (count - 1 : ℕ) := by
    rw [Nat.cast_pred (by omega)]
  have hwhole : Represents (Float32.ofNat count - 1) (count - 1) := by
    have hone : Represents 1 1 := by exact_mod_cast represents_ofNat (n := 1) (by decide)
    refine (represents_ofNat hcount).sub hone ?_
    rw [hlast]
    exact isShort_natCast (by omega)
  have hmiddle : Represents ((Float32.ofNat count - 1) / 2) ((count - 1) / 2) := by
    refine hwhole.half fun hne => ?_
    rw [hlast, Nat.abs_cast, Nat.one_le_cast]
    rw [hlast, Nat.cast_ne_zero] at hne
    omega
  refine (represents_ofNat (hslot.trans hcount)).sub hmiddle ?_
  -- twice the offset is a whole number between those of the two ends
  refine ⟨(2 * slot - (count - 1) : ℤ).natAbs, -1, ?_, by omega, by decide, by decide⟩
  have htwice : (slot : ℚ) - (count - 1) / 2 = (2 * slot - (count - 1) : ℤ) * 2 ^ (-1 : ℤ) := by
    push_cast
    rw [zpow_neg_one]
    ring
  have hpos : (0 : ℚ) < 2 ^ (-1 : ℤ) := by positivity
  rw [htwice, abs_mul, Nat.cast_natAbs, Int.cast_abs, abs_of_pos hpos]

-- ==================================================== coordinates

theorem IsSlotted.slot_lt {l : Layout} {slot : LayoutNode → ℕ} {order : List String}
    (h : l.IsSlotted slot order) {n : LayoutNode} (hn : n ∈ l.nodes) :
    slot n < (l.onRank n.rank).length := by
  have hrank : n ∈ l.onRank n.rank := mem_onRank.2 ⟨hn, rfl⟩
  exact List.mem_range.1 ((h.counted n.rank).mem_iff.1 (List.mem_map_of_mem hrank))

theorem isFinite_of_fault? {s : Spacing} (h : s.fault? = none) :
    s.rank.isFinite = true ∧ s.node.isFinite = true := by
  unfold Spacing.fault? Spacing.isUsable at h
  split_ifs at h with hrank hnode
  simp only [Bool.not_eq_true', Bool.not_eq_false, Bool.and_eq_true] at hrank hnode
  exact ⟨hrank.1, hnode.1⟩

/-- A layout with accepted distances places every schema. A coordinate is
a number in the document exactly if it is finite, and it is finite exactly
if its factor is and the product is below the limit. With ranks and counts
of 24 binary digits the factors are exact, so that the limit applies to
the coordinate in exact arithmetic. -/
theorem isFinite_position_iff {options : LayoutOptions} (hspacing : options.spacing.fault? = none)
    (g : SchemaGraph) :
    let slot := fun n : LayoutNode => (Ranking.of (Adjacency.of g)).slot n.id
    let rankGap := options.spacing.rank
    let nodeGap := options.spacing.node
    ∃ l, Layout.of options g = .ok l ∧ l.nodes.map LayoutNode.id = g.ids
      ∧ ∀ n ∈ l.nodes,
        let count := (l.onRank n.rank).length
        let ideal := l.exact slot (value rankGap) (value nodeGap) n
        (Json.IsNull n.position.x ↔ n.position.x.isFinite = false)
        ∧ (Json.IsNull n.position.y ↔ n.position.y.isFinite = false)
        ∧ (n.position.x.isFinite = true ↔ (Float32.ofNat n.rank).isFinite = true
          ∧ |value (Float32.ofNat n.rank) * value rankGap| < limit)
        ∧ (n.position.y.isFinite = true ↔ (offset (slot n) count).isFinite = true
          ∧ |value (offset (slot n) count) * value nodeGap| < limit)
        ∧ (n.rank < 2 ^ 24 → (n.position.x.isFinite = true ↔ |ideal.1| < limit))
        ∧ (count < 2 ^ 24 → (n.position.y.isFinite = true ↔ |ideal.2| < limit)) := by
  intro slot rankGap nodeGap
  obtain ⟨hrankGap, hnodeGap⟩ := isFinite_of_fault? hspacing
  have hslotted : (arrange options g).IsSlotted slot g.discovery := isSlotted_arrange options
  refine ⟨arrange options g, of_eq_ok hspacing, ?_, ?_⟩
  · rw [nodes_arrange, List.map_map]
    exact List.map_id g.ids
  · intro n hn count ideal
    obtain ⟨hx, hy⟩ := Prod.mk.inj (position_arrange options n hn)
    have hx : n.position.x = Float32.ofNat n.rank * rankGap := hx
    have hy : n.position.y = offset (slot n) count * nodeGap := hy
    refine ⟨Json.isNull_iff _, Json.isNull_iff _, ?_, ?_, ?_, ?_⟩
    · rw [hx, isFinite_mul_iff]
      exact and_congr_right fun _ => and_iff_right hrankGap
    · rw [hy, isFinite_mul_iff]
      exact and_congr_right fun _ => and_iff_right hnodeGap
    · intro hrank
      rw [hx]
      exact (represents_ofNat hrank).isFinite_mul_iff hrankGap
    · intro hcount
      rw [hy]
      exact (represents_offset (hslotted.slot_lt hn) hcount).isFinite_mul_iff hnodeGap

/-- Ranks that lie `2 ^ 127` apart. -/
def wideOptions : LayoutOptions where
  spacing := { rank := Float32.ofBits 0x7F000000 }

theorem value_rank_wideOptions : value wideOptions.spacing.rank = 2 ^ 127 := by
  have hparts : parts wideOptions.spacing.rank =
      .finite Float.Model.UnpackedFloat.Sign.positive (2 ^ 23) 104 (by decide) := rfl
  unfold value
  rw [hparts]
  norm_num [number, unit]

theorem nodes_lateGraph_wideOptions :
    (arrange wideOptions lateGraph).nodes.map (fun n => (n.id, n.rank)) =
      [("A", 0), ("B", 1), ("C", 2), ("D", 2)] := by
  rw [← nodes_lateGraph, map_nodes_arrange, map_nodes_arrange]

/-- Only the first two ranks have finite coordinates. -/
theorem isFinite_position_lateGraph :
    wideOptions.spacing.fault? = none ∧
      ∃ l, Layout.of wideOptions lateGraph = .ok l
        ∧ l.nodes.map (fun n => (n.id, n.rank)) = [("A", 0), ("B", 1), ("C", 2), ("D", 2)]
        ∧ ∀ n ∈ l.nodes, (n.position.x.isFinite = true ↔ n.rank < 2) := by
  have hspacing : wideOptions.spacing.fault? = none := by decide
  obtain ⟨l, hl, -, hfinite⟩ := isFinite_position_iff hspacing lateGraph
  obtain rfl : arrange wideOptions lateGraph = l :=
    Except.ok.inj ((of_eq_ok hspacing).symm.trans hl)
  have hsmall : ∀ n ∈ (arrange wideOptions lateGraph).nodes, n.rank < 2 ^ 24 := by
    intro n hn
    have hpair := List.mem_map_of_mem (f := fun n => (n.id, n.rank)) hn
    rw [nodes_lateGraph_wideOptions] at hpair
    have hall : ∀ p ∈ [("A", 0), ("B", 1), ("C", 2), ("D", 2)], p.2 < 2 ^ 24 := by decide
    exact hall _ hpair
  refine ⟨hspacing, _, hl, nodes_lateGraph_wideOptions, fun n hn => ?_⟩
  obtain ⟨-, -, -, -, hx, -⟩ := hfinite n hn
  rw [hx (hsmall n hn)]
  show |(n.rank : ℚ) * value wideOptions.spacing.rank| < limit ↔ n.rank < 2
  rw [value_rank_wideOptions, abs_of_nonneg (by positivity)]
  constructor
  · intro hlt
    by_contra hge
    have hrank : (2 : ℚ) ≤ n.rank := by exact_mod_cast not_lt.1 hge
    norm_num [limit] at hlt
    linarith
  · intro hlt
    have hrank : (n.rank : ℚ) ≤ 1 := by exact_mod_cast Nat.le_of_lt_succ hlt
    norm_num [limit]
    linarith

/-- `C` stands on the second rank, at `2 ^ 128`. Its coordinate is not
finite and `null` in the document, although the distances are accepted. -/
theorem not_isFinite_lateGraph :
    wideOptions.spacing.fault? = none ∧
      ∃ l, Layout.of wideOptions lateGraph = .ok l
        ∧ (¬ ∀ n ∈ l.nodes, n.position.IsFinite)
        ∧ ∃ n ∈ l.nodes, n.id = "C" ∧ Json.IsNull n.position.x := by
  have hspacing : wideOptions.spacing.fault? = none := by decide
  have hmem : ("C", 2) ∈ (arrange wideOptions lateGraph).nodes.map fun n => (n.id, n.rank) := by
    rw [nodes_lateGraph_wideOptions]
    decide
  obtain ⟨n, hn, hpair⟩ := List.mem_map.1 hmem
  obtain ⟨hid, hrank⟩ := Prod.mk.inj hpair
  have hx : n.position.x = Float32.ofNat n.rank * wideOptions.spacing.rank :=
    (Prod.mk.inj (position_arrange wideOptions n hn)).1
  have hoverflow : n.position.x.isFinite = false := by
    rw [hx, hrank]
    decide
  refine ⟨hspacing, _, of_eq_ok hspacing, ?_, n, hn, hid, (Json.isNull_iff _).2 hoverflow⟩
  intro hfinite
  have hboth := hfinite n hn
  rw [Point.IsFinite, hoverflow] at hboth
  cases hboth.1

end Layout

end SchemaAtlas
