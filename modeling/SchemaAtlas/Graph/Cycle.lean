/-
Search for cycles. A depth-first walk follows relationships in order
and stops at the first schema it meets again on its own path. Schemas
whose whole reach was walked without a cycle are remembered, also from
one start to the next, and never walked again.

- `CycleSearch.explore`: the walk below a path.
- `CycleSearch.firstCycle`: the first cycle met from a schema.
-/
import SchemaAtlas.Graph.Adjacency

namespace SchemaAtlas

namespace CycleSearch

/-- Ids with relationships of their own that are not on the path: the
descents still open to a walk. -/
def openSources (a : Adjacency) (path : List String) : Nat :=
  (a.sources.filter fun id => !path.contains id).length

theorem openSources_lt {a : Adjacency} {path : List String} {id : String}
    (hs : id ∈ a.sources) (hp : id ∉ path) :
    openSources a (path ++ [id]) < openSources a path :=
  length_unseen_lt hs hp List.mem_cons_self

/-- Walks on from the end of `path` to the given targets in turn. The
answer is the cycle met, if any, and the ids known to lead to none. -/
def explore (a : Adjacency) (path known : List String) :
    List String → Option (List String) × List String
  | [] => (none, known)
  | id :: ids =>
      if path.contains id then (some (path.dropWhile (· ≠ id) ++ [id]), known)
      else if known.contains id then explore a path known ids
      else if a.sources.contains id then
        match explore a (path ++ [id]) known (a.successors id) with
        | (some cycle, known) => (some cycle, known)
        | (none, known) => explore a path (known ++ [id]) ids
      else explore a path (known ++ [id]) ids
termination_by targets => (openSources a path, targets.length)
decreasing_by
  · exact Prod.Lex.right _ (by simp)
  · refine Prod.Lex.left _ _ (openSources_lt ?_ ?_)
    · simp_all
    · simp_all
  · exact Prod.Lex.right _ (by simp)
  · exact Prod.Lex.right _ (by simp)

/-- The first cycle met from `start`, and the ids now known to lead to
none. A cycle begins and ends with the schema first met again; it need
not pass through `start`. -/
def firstCycle (a : Adjacency) (known : List String) (start : String) :
    Option (List String) × List String :=
  if known.contains start then (none, known)
  else
    match explore a [start] known (a.successors start) with
    | (some cycle, known) => (some cycle, known)
    | (none, known) => (none, known ++ [start])

/-- What identifies a cycle: its distinct members in order, as one
text. -/
def key (cycle : List String) : String :=
  String.intercalate "->" (cycle.eraseDups.mergeSort fun a b => a ≤ b)

end CycleSearch

end SchemaAtlas
