/-
Adjacency of a schema graph. The relationships of a graph form one flat
list; the adjacency files each of them under the schema it starts at
and, if its target exists, under that target. Within a list the order
of the graph is kept.
-/
import SchemaAtlas.Graph.Basic
import SchemaAtlas.OrderedMap

namespace SchemaAtlas

/-- The relationships of a graph by their ends. -/
structure Adjacency where
  /-- The distinct schema ids, in order of first occurrence. -/
  ids : List String
  /-- Relationships by the schema they start at. -/
  outgoing : OrderedMap String (List Relationship)
  /-- Relationships by the schema they end at, which is one of `ids`. -/
  incoming : OrderedMap String (List Relationship)

namespace Adjacency

/-- The map with `r` at the end of the list under `id`. -/
def file (m : OrderedMap String (List Relationship)) (id : String) (r : Relationship) :
    OrderedMap String (List Relationship) :=
  m.update id fun rs => rs.getD [] ++ [r]

/-- The adjacency with one more relationship. -/
def add (a : Adjacency) (r : Relationship) : Adjacency :=
  { a with
    outgoing := file a.outgoing r.source r
    incoming := if a.ids.contains r.target then file a.incoming r.target r else a.incoming }

/-- The adjacency of a graph. -/
def of (g : SchemaGraph) : Adjacency :=
  g.relationships.foldl add ⟨g.ids, .empty, .empty⟩

-- ==================================================== queries

/-- Whether `id` is a schema. -/
def contains (a : Adjacency) (id : String) : Bool :=
  a.ids.contains id

/-- Relationships that start at `id`. -/
def outgoingOf (a : Adjacency) (id : String) : List Relationship :=
  (a.outgoing.get? id).getD []

/-- Relationships that end at the schema `id`. -/
def incomingOf (a : Adjacency) (id : String) : List Relationship :=
  (a.incoming.get? id).getD []

/-- How many relationships start at `id`. -/
def outDegree (a : Adjacency) (id : String) : Nat :=
  (a.outgoingOf id).length

/-- How many relationships end at the schema `id`. -/
def inDegree (a : Adjacency) (id : String) : Nat :=
  (a.incomingOf id).length

/-- Schemas that no relationship ends at, in order. -/
def roots (a : Adjacency) : List String :=
  a.ids.filter fun id => a.inDegree id = 0

/-- The targets of the relationships that start at `id`. -/
def successors (a : Adjacency) (id : String) : List String :=
  (a.outgoingOf id).map Relationship.target

/-- The ids at which some relationship ends. -/
def targets (a : Adjacency) : List String :=
  a.outgoing.values.flatten.map Relationship.target

theorem mem_targets (a : Adjacency) {id target : String} (h : target ∈ a.successors id) :
    target ∈ a.targets := by
  obtain ⟨r, hr, rfl⟩ := List.mem_map.1 h
  unfold outgoingOf at hr
  cases hg : a.outgoing.get? id with
  | none => simp [hg] at hr
  | some rs =>
      simp only [hg, Option.getD_some] at hr
      exact List.mem_map.2
        ⟨r, List.mem_flatten.2 ⟨rs, OrderedMap.mem_values_of_get? hg, hr⟩, rfl⟩

/-- The ids at which some relationship starts. -/
def sources (a : Adjacency) : List String :=
  a.outgoing.keys

end Adjacency

-- ==================================================== progress of a walk

/-- Fewer ids are left when one of them is seen. -/
theorem length_unseen_lt {ids seen new : List String} {id : String} (hid : id ∈ ids)
    (hseen : id ∉ seen) (hnew : id ∈ new) :
    (ids.filter fun x => !(seen ++ new).contains x).length <
      (ids.filter fun x => !seen.contains x).length := by
  have narrower : (ids.filter fun x => !(seen ++ new).contains x) =
      (ids.filter fun x => !seen.contains x).filter fun x => !(seen ++ new).contains x := by
    rw [List.filter_filter]
    congr 1
    funext x
    by_cases h : x ∈ seen <;> simp [h]
  rw [narrower, List.length_filter_lt_length_iff_exists]
  exact ⟨id, by simp [hid, hseen], by simp [hnew]⟩

end SchemaAtlas
