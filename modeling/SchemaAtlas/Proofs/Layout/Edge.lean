/-
Edges of a layout. Every relationship becomes one edge, in order and
whatever its ends are, and the edge shows the relationship it was made
of. Its id joins the names of the ends and the place in the list by
hyphens. The names may hold hyphens and digits themselves, so that ids
cannot be taken apart from the front; but a place is written in digits
alone, so that it is what stands behind the last hyphen, and no two
edges have the same place.

- `LayoutEdge.Shows`: what an edge has of its relationship.
- `LayoutEdge.place_id_of`: the place, read off the id of an edge.
- `Layout.nodup_ids_mapIdx`: ids differ.
- `Layout.exists_faithful_edges`: the edges of a layout.
-/
import Mathlib.Data.List.Nodup
import SchemaAtlas.Proofs.Layout.Depth
import SchemaAtlas.Proofs.Text.Natural

namespace SchemaAtlas

namespace LayoutEdge

-- ==================================================== reading edges

/-- An edge shows a relationship: it has its ends, its field, its kind
and its mechanism. -/
structure Shows (e : LayoutEdge) (r : Relationship) : Prop where
  source : e.source = r.source
  target : e.target = r.target
  label : e.label = r.field
  kind : e.kind = r.kind
  mechanism : e.mechanism = r.mechanism

/-- The number behind the last hyphen of an id. -/
def place (id : String) : Nat :=
  Nat.ofDigitChars 10 (id.toList.reverse.takeWhile (· ≠ '-')).reverse 0

section

variable (palette : Palette) (index : Nat) (r : Relationship)

/-- A place is written without hyphens. -/
theorem hyphen_not_mem_repr (n : Nat) : '-' ∉ (Nat.repr n).toList := by
  intro h
  exact absurd (Text.isDigit_of_mem_repr h) (by decide)

/-- The id of an edge ends in its place. -/
theorem place_id_of : place (of palette index r).id = index := by
  have hid : (of palette index r).id.toList =
      (r.source ++ "-" ++ r.target).toList ++ '-' :: (Nat.repr index).toList := by
    show (r.source ++ "-" ++ r.target ++ "-" ++ Nat.repr index).toList = _
    rw [String.toList_append, String.toList_append, List.append_assoc]
    rfl
  have hplace : ∀ c ∈ (Nat.repr index).toList.reverse, decide (c ≠ '-') = true := by
    intro c hc
    rw [decide_eq_true_eq]
    rintro rfl
    exact hyphen_not_mem_repr index (List.mem_reverse.1 hc)
  have hlast : (of palette index r).id.toList.reverse.takeWhile (· ≠ '-') =
      (Nat.repr index).toList.reverse := by
    rw [hid, List.reverse_append, List.reverse_cons, List.append_assoc,
      List.takeWhile_append_of_pos hplace]
    exact List.append_nil _
  rw [place, hlast, List.reverse_reverse, Text.ofDigitChars_repr]

/-- An edge shows the relationship it was made of. -/
theorem shows_of : (of palette index r).Shows r :=
  ⟨rfl, rfl, rfl, rfl, rfl⟩

end

end LayoutEdge

namespace Layout

-- ==================================================== all edges

section

variable (palette : Palette) (rs : List Relationship)

/-- The edges show the relationships, in their order. -/
theorem shows_mapIdx :
    List.Forall₂ LayoutEdge.Shows (rs.mapIdx (LayoutEdge.of palette)) rs := by
  rw [List.forall₂_iff_get]
  refine ⟨List.length_mapIdx, fun i hedge hr => ?_⟩
  rw [List.get_eq_getElem, List.get_eq_getElem, List.getElem_mapIdx]
  exact LayoutEdge.shows_of palette i rs[i]

/-- The places in the ids count the edges. -/
theorem map_place_mapIdx :
    ((rs.mapIdx (LayoutEdge.of palette)).map LayoutEdge.id).map LayoutEdge.place =
      List.range rs.length := by
  apply List.ext_getElem
  · rw [List.length_map, List.length_map, List.length_mapIdx, List.length_range]
  · intro i _ _
    rw [List.getElem_map, List.getElem_map, List.getElem_mapIdx, LayoutEdge.place_id_of,
      List.getElem_range]

/-- No two edges have the same id, since no two have the same place. -/
theorem nodup_ids_mapIdx :
    ((rs.mapIdx (LayoutEdge.of palette)).map LayoutEdge.id).Nodup := by
  apply List.Nodup.of_map LayoutEdge.place
  rw [map_place_mapIdx]
  exact List.nodup_range

end

/-- A layout has one edge for each relationship, in order, which shows
it, and no two edges have the same id. -/
theorem exists_faithful_edges {options : LayoutOptions} (hspacing : options.spacing.fault? = none)
    (g : SchemaGraph) :
    ∃ l, Layout.of options g = .ok l
      ∧ List.Forall₂ LayoutEdge.Shows l.edges g.relationships
      ∧ (l.edges.map LayoutEdge.id).Nodup :=
  ⟨arrange options g, of_eq_ok hspacing, shows_mapIdx options.palette _,
    nodup_ids_mapIdx options.palette _⟩

/-- Edges between names with hyphens, digits and nothing in them, none of
them a schema of the graph. -/
def hyphenGraph : SchemaGraph where
  schemas := [⟨"", "Empty", []⟩]
  relationships :=
    [.foreignKey "a" "b-c" "x" .oneToOne, .foreignKey "a-b" "c" "y" .oneToMany,
     .embedded "a" "b-c" "x" false, .embedded "" "0-3" "" true, .foreignKey "" "0" "3" .oneToOne]

/-- The first three edges have the same names in their ids, and only
their places differ. -/
theorem exists_faithful_edges_hyphenGraph :
    ({} : LayoutOptions).spacing.fault? = none ∧
      ∃ l, Layout.of {} hyphenGraph = .ok l
        ∧ l.edges.map LayoutEdge.id = ["a-b-c-0", "a-b-c-1", "a-b-c-2", "-0-3-3", "-0-4"]
        ∧ List.Forall₂ LayoutEdge.Shows l.edges hyphenGraph.relationships
        ∧ (l.edges.map LayoutEdge.id).Nodup := by
  have hspacing : ({} : LayoutOptions).spacing.fault? = none := by decide
  obtain ⟨l, hl, hshows, hnodup⟩ := exists_faithful_edges hspacing hyphenGraph
  obtain rfl : arrange {} hyphenGraph = l := Except.ok.inj ((of_eq_ok hspacing).symm.trans hl)
  exact ⟨hspacing, _, hl, by decide, hshows, hnodup⟩

end Layout

end SchemaAtlas
