/-
Adjacency and graph say the same. A relationship goes to the end of one
list of either map, and to none of the second if its target is no schema.
So each relationship that is filed moves all answers of the adjacency
together, as the graph's own answers move that has one relationship more
(`Answers.add`), and the answers agree for every graph by induction on
its relationships from the end.

The graph may repeat ids and relationships, and it may name schemas that
it does not list: what starts at an unknown id is filed, what ends at one
is not.

- `pairwise_eraseDups`: distinct ids in the order of their first places.
- `SchemaGraph.Links`, `Reaches`, `LeadsToCycle`: walks along
  relationships.
- `Adjacency.answers_of`: the lists under every id.
- `SchemaGraph.AreRoots`: the schemas at which no relationship ends.
- `Adjacency.mem_successors_of`: the successors are what it links to.
- `Adjacency.queries_agree`: lists, degrees and roots at once.
-/
import Mathlib.Data.List.Induction
import Mathlib.Logic.Relation
import SchemaAtlas.Graph.Adjacency
import SchemaAtlas.Proofs.OrderedMap

namespace SchemaAtlas

open Relation

-- ==================================================== lists

theorem filterMap_eq_map_filter {α β : Type} {f : α → Option β} {p : α → Bool} {h : α → β}
    {xs : List α} (hf : ∀ x ∈ xs, f x = if p x then some (h x) else none) :
    xs.filterMap f = (xs.filter p).map h := by
  induction xs with
  | nil => rfl
  | cons x xs ih =>
      have hx := hf x List.mem_cons_self
      have hxs := ih fun y hy => hf y (List.mem_cons_of_mem x hy)
      by_cases hp : p x = true
      · rw [if_pos hp] at hx
        rw [List.filterMap_cons_some hx, List.filter_cons_of_pos hp, hxs, List.map_cons]
      · rw [if_neg hp] at hx
        rw [List.filterMap_cons_none hx, List.filter_cons_of_neg hp, hxs]

/-- One id more stays if it is new. -/
theorem eraseDups_concat (ids : List String) (id : String) :
    (ids ++ [id]).eraseDups = ids.eraseDups ++ if id ∈ ids then [] else [id] := by
  rw [List.eraseDups_append]
  congr 1
  by_cases hid : id ∈ ids
  · simp [List.removeAll, hid]
  · simp [List.removeAll, hid, List.eraseDups_cons]

/-- Without its repetitions, a list has its ids in the order in which they
stand in it for the first time. -/
theorem pairwise_eraseDups (ids : List String) :
    ids.eraseDups.Pairwise fun u v => ids.idxOf u < ids.idxOf v := by
  -- from the end: first places do not change when the list gets longer
  induction ids using List.reverseRecOn with
  | nil => exact .nil
  | append_singleton ids id ih =>
      have hplace : ∀ {u}, u ∈ ids.eraseDups → (ids ++ [id]).idxOf u = ids.idxOf u := fun hu =>
        List.idxOf_append_of_mem (List.mem_eraseDups.1 hu)
      have hfront : ids.eraseDups.Pairwise fun u v =>
          (ids ++ [id]).idxOf u < (ids ++ [id]).idxOf v := by
        refine ih.imp_of_mem fun hu hv huv => ?_
        rwa [hplace hu, hplace hv]
      rw [eraseDups_concat]
      by_cases hid : id ∈ ids
      · rw [if_pos hid, List.append_nil]
        exact hfront
      · rw [if_neg hid]
        refine List.pairwise_append.2 ⟨hfront, List.pairwise_singleton _ _, ?_⟩
        intro u hu v hv
        rw [List.mem_singleton.1 hv, hplace hu, List.idxOf_append_of_notMem hid]
        have hlt : ids.idxOf u < ids.length :=
          List.idxOf_lt_length_of_mem (List.mem_eraseDups.1 hu)
        omega

theorem nodup_of_pairwise_lt {ids : List String} {place : String → Nat}
    (h : ids.Pairwise fun u v => place u < place v) : ids.Nodup :=
  h.imp fun hlt heq => Nat.ne_of_lt hlt (congrArg place heq)

theorem nodup_eraseDups (ids : List String) : ids.eraseDups.Nodup :=
  nodup_of_pairwise_lt (pairwise_eraseDups ids)

theorem SchemaGraph.nodup_ids (g : SchemaGraph) : g.ids.Nodup :=
  nodup_eraseDups _

theorem SchemaGraph.mem_ids {g : SchemaGraph} {id : String} :
    id ∈ g.ids ↔ g.contains id = true := by
  simp [ids, contains]

-- ==================================================== walks

namespace SchemaGraph

variable (g : SchemaGraph)

/-- A relationship leads from one id to the other. -/
def Links (u v : String) : Prop :=
  ∃ r ∈ g.relationships, r.source = u ∧ r.target = v

/-- Some number of relationships, perhaps none, lead there. -/
def Reaches : String → String → Prop :=
  ReflTransGen g.Links

/-- At least one relationship leads from the id back to it. -/
def OnCycle (v : String) : Prop :=
  TransGen g.Links v v

/-- A cycle can be reached from the id. -/
def LeadsToCycle (u : String) : Prop :=
  ∃ v, g.Reaches u v ∧ g.OnCycle v

end SchemaGraph

-- ==================================================== one relationship more

namespace SchemaGraph

variable (g : SchemaGraph) (r : Relationship)

/-- The graph with `r` behind its relationships. -/
def relate : SchemaGraph :=
  { g with relationships := g.relationships ++ [r] }

theorem outgoing_relate (id : String) :
    (g.relate r).outgoing id = g.outgoing id ++ if r.source = id then [r] else [] := by
  unfold outgoing relate
  rw [List.filter_append]
  by_cases h : r.source = id <;> simp [h]

theorem incoming_relate (id : String) :
    (g.relate r).incoming id = g.incoming id ++ if r.target = id then [r] else [] := by
  unfold incoming relate
  rw [List.filter_append]
  by_cases h : r.target = id <;> simp [h]

end SchemaGraph

namespace Adjacency

/-- A relationship goes to the end of the list it is filed under, and the
other lists stay. -/
theorem getD_file (m : OrderedMap String (List Relationship)) (key id : String)
    (r : Relationship) :
    ((file m key r).get? id).getD [] =
      (m.get? id).getD [] ++ if key = id then [r] else [] := by
  rw [file, OrderedMap.update, OrderedMap.get?_insert]
  by_cases h : key = id
  · rw [if_pos h, if_pos h, h, Option.getD_some]
  · rw [if_neg h, if_neg h, List.append_nil]

theorem outgoingOf_add (a : Adjacency) (r : Relationship) (id : String) :
    (a.add r).outgoingOf id = a.outgoingOf id ++ if r.source = id then [r] else [] :=
  getD_file a.outgoing r.source id r

theorem incomingOf_add (a : Adjacency) (r : Relationship) (id : String) :
    (a.add r).incomingOf id =
      a.incomingOf id ++ if r.target = id ∧ id ∈ a.ids then [r] else [] := by
  by_cases hknown : r.target ∈ a.ids
  · have hfile : (a.add r).incoming = file a.incoming r.target r :=
      if_pos (List.contains_iff_mem.2 hknown)
    have hends : (r.target = id ∧ id ∈ a.ids) ↔ r.target = id :=
      and_iff_left_of_imp fun h => h ▸ hknown
    rw [incomingOf, hfile, getD_file]
    simp only [hends]
    rfl
  · have hkept : (a.add r).incoming = a.incoming :=
      if_neg (mt List.contains_iff_mem.1 hknown)
    have hends : ¬ (r.target = id ∧ id ∈ a.ids) := fun h => hknown (h.1 ▸ h.2)
    rw [incomingOf, hkept, if_neg hends, List.append_nil]
    rfl

-- ==================================================== answers

/-- The adjacency has the schemas of the graph, and under every id the
relationships that the graph has there; what ends at an id that is no
schema is left out. -/
structure Answers (a : Adjacency) (g : SchemaGraph) : Prop where
  ids : a.ids = g.ids
  outgoing : ∀ id, a.outgoingOf id = g.outgoing id
  incoming : ∀ id, a.incomingOf id = if g.contains id then g.incoming id else []

namespace Answers

variable {a : Adjacency} {g : SchemaGraph}

theorem mem_ids_iff (h : a.Answers g) {id : String} : id ∈ a.ids ↔ g.contains id = true := by
  rw [h.ids, SchemaGraph.mem_ids]

/-- Filing a relationship keeps the answers those of the graph. -/
theorem add (h : a.Answers g) (r : Relationship) : (a.add r).Answers (g.relate r) where
  ids := h.ids
  outgoing id := by rw [outgoingOf_add, h.outgoing, SchemaGraph.outgoing_relate]
  incoming id := by
    show _ = if g.contains id then (g.relate r).incoming id else []
    rw [incomingOf_add, h.incoming, SchemaGraph.incoming_relate]
    simp only [h.mem_ids_iff]
    cases g.contains id with
    | true => simp only [and_true, if_true]
    | false => simp

end Answers

theorem answers_unrelated (schemas : List SchemaNode) :
    (of ⟨schemas, []⟩).Answers ⟨schemas, []⟩ where
  ids := rfl
  outgoing _ := rfl
  incoming _ := (ite_self []).symm

theorem of_relate (g : SchemaGraph) (r : Relationship) : of (g.relate r) = (of g).add r :=
  List.foldl_concat add _ r g.relationships

/-- The adjacency of a graph answers as the graph does. -/
theorem answers_of (g : SchemaGraph) : (of g).Answers g := by
  obtain ⟨schemas, relationships⟩ := g
  induction relationships using List.reverseRecOn with
  | nil => exact answers_unrelated schemas
  | append_singleton rs r ih =>
      let front : SchemaGraph := ⟨schemas, rs⟩
      show (of (front.relate r)).Answers (front.relate r)
      rw [of_relate]
      exact ih.add r

/-- The list under an id holds the graph's outgoing relationships. -/
theorem outgoingOf_of (g : SchemaGraph) (id : String) : (of g).outgoingOf id = g.outgoing id :=
  (answers_of g).outgoing id

theorem ids_of (g : SchemaGraph) : (of g).ids = g.ids :=
  (answers_of g).ids

theorem contains_of (g : SchemaGraph) : (of g).contains = g.contains := by
  funext id
  rw [contains, Bool.eq_iff_iff, List.contains_iff_mem, (answers_of g).mem_ids_iff]

theorem nodup_ids_of (g : SchemaGraph) : (of g).ids.Nodup := by
  rw [ids_of]
  exact g.nodup_ids

/-- The list under a schema holds the graph's incoming relationships. -/
theorem incomingOf_of {g : SchemaGraph} {id : String} (hid : id ∈ g.ids) :
    (of g).incomingOf id = g.incoming id := by
  rw [(answers_of g).incoming, if_pos (SchemaGraph.mem_ids.1 hid)]

theorem inDegree_eq_zero_iff {g : SchemaGraph} {id : String} (hid : id ∈ g.ids) :
    (of g).inDegree id = 0 ↔ g.incoming id = [] := by
  rw [inDegree, incomingOf_of hid, List.length_eq_zero_iff]

/-- The successors of an id are the ids it links to. -/
theorem mem_successors_of {g : SchemaGraph} {u v : String} :
    v ∈ (of g).successors u ↔ g.Links u v := by
  unfold successors SchemaGraph.Links
  rw [outgoingOf_of, List.mem_map]
  simp only [SchemaGraph.outgoing, List.mem_filter, decide_eq_true_eq, and_assoc]

/-- An id under which nothing is filed has no successors. -/
theorem successors_of_not_mem_sources {a : Adjacency} {id : String} (h : id ∉ a.sources) :
    a.successors id = [] := by
  have hget : a.outgoing.get? id = none := OrderedMap.get?_eq_none_iff.2 h
  simp [successors, outgoingOf, hget]

end Adjacency

-- ==================================================== roots

namespace SchemaGraph

variable {g : SchemaGraph}

/-- The place of the first schema of the given id. -/
def firstPlace (g : SchemaGraph) (id : String) : Nat :=
  (g.schemas.map SchemaNode.id).idxOf id

/-- The schemas at which no relationship ends, in the order of their
first places and so each of them once. -/
structure AreRoots (g : SchemaGraph) (roots : List String) : Prop where
  mem_iff : ∀ id, id ∈ roots ↔ g.contains id = true ∧ g.incoming id = []
  inOrder : roots.Pairwise fun u v => g.firstPlace u < g.firstPlace v

/-- There is one list of roots only. -/
theorem AreRoots.unique {roots roots' : List String} (h : g.AreRoots roots)
    (h' : g.AreRoots roots') : roots = roots' := by
  have hperm : roots.Perm roots' := by
    rw [List.perm_ext_iff_of_nodup (nodup_of_pairwise_lt h.inOrder)
      (nodup_of_pairwise_lt h'.inOrder)]
    intro id
    rw [h.mem_iff, h'.mem_iff]
  refine hperm.eq_of_pairwise ?_ h.inOrder h'.inOrder
  intro u v _ _ huv hvu
  exact absurd hvu (Nat.lt_asymm huv)

end SchemaGraph

namespace Adjacency

theorem areRoots_of (g : SchemaGraph) : g.AreRoots (of g).roots where
  mem_iff id := by
    rw [roots, List.mem_filter, ids_of, decide_eq_true_eq, ← SchemaGraph.mem_ids]
    exact and_congr_right inDegree_eq_zero_iff
  inOrder := by
    rw [roots, ids_of]
    exact (pairwise_eraseDups _).filter _

-- ==================================================== all queries

/-- What an adjacency is asked about any id is what the graph's two lists
say of it. The relationships that start there are in graph order, and so
are those that end there if the id is a schema; there are none otherwise.
The degrees count them, and the roots are the one list of the distinct
schemas at which no relationship ends, by their first places. -/
theorem queries_agree (g : SchemaGraph) :
    (∀ id,
      (of g).outgoingOf id = g.outgoing id
        ∧ (of g).incomingOf id = (if g.contains id then g.incoming id else [])
        ∧ (of g).outDegree id = (g.outgoing id).length
        ∧ (of g).inDegree id = if g.contains id then (g.incoming id).length else 0)
      ∧ ∀ ids, ids = (of g).roots ↔ g.AreRoots ids := by
  have hanswers := answers_of g
  refine ⟨fun id => ⟨hanswers.outgoing id, hanswers.incoming id, ?_, ?_⟩, fun ids => ⟨?_, ?_⟩⟩
  · rw [outDegree, hanswers.outgoing]
  · rw [inDegree, hanswers.incoming, apply_ite List.length, List.length_nil]
  · rintro rfl
    exact areRoots_of g
  · intro hroots
    exact hroots.unique (areRoots_of g)

/-- A schema declared twice, a relationship given twice, and one from and
one to an id that is no schema. -/
example :
    let g : SchemaGraph :=
      ⟨[⟨"A", "ASchema", []⟩, ⟨"B", "BSchema", []⟩, ⟨"A", "LaterSchema", []⟩],
        [.foreignKey "A" "B" "b" .oneToOne, .foreignKey "A" "B" "b" .oneToOne,
          .foreignKey "A" "Absent" "a" .oneToOne, .foreignKey "Stray" "B" "b" .oneToMany]⟩
    (of g).inDegree "B" = 3 ∧ (of g).outDegree "Stray" = 1
      ∧ (g.incoming "Absent").length = 1 ∧ (of g).inDegree "Absent" = 0
      ∧ (of g).roots = ["A"] := by
  decide

end Adjacency

end SchemaAtlas
