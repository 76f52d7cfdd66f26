/-
Ranks of a layout. A breadth-first walk starts at the schemas that no
relationship ends at; every relationship it follows raises its target
above its source. Each schema is taken from the queue once, so later
raises of a schema are not passed on. Schemas the walk never meets stay
on rank zero.

- `Ranking.walk`: the walk, from a queue of met schemas.
- `Ranking.of`: ranks, and the order schemas take within their rank.
- `Ranking.column`, `Ranking.slot`: who stands on a rank, and where.
-/
import SchemaAtlas.Graph.Adjacency

namespace SchemaAtlas

/-- Ranks in schema order, and the order within ranks. -/
structure Ranking where
  ranks : OrderedMap String Nat
  /-- The schemas met by the walk, as they were met, then the others. -/
  order : List String

namespace Ranking

-- ==================================================== raising

/-- The ranks with every listed schema raised to at least `rank`. -/
def raise (ranks : OrderedMap String Nat) (rank : Nat) (targets : List String) :
    OrderedMap String Nat :=
  ranks.adjust fun id r => if targets.contains id then max r rank else r

/-- The listed ids that were not met before, each once. -/
def fresh (met targets : List String) : List String :=
  (targets.filter fun id => !met.contains id).eraseDups

-- ==================================================== progress

/-- Ids that some relationship ends at and that were not met before. -/
def unmet (a : Adjacency) (met : List String) : Nat :=
  (a.targets.filter fun id => !met.contains id).length

theorem unmet_lt {a : Adjacency} {met new : List String} {id : String}
    (ht : id ∈ a.targets) (hm : id ∉ met) (hn : id ∈ new) :
    unmet a (met ++ new) < unmet a met :=
  length_unseen_lt ht hm hn

-- ==================================================== walk

/-- Walks on from a queue of ids; `met` are all ids ever queued, in the
order they were met. -/
def walk (a : Adjacency) (ranks : OrderedMap String Nat) (met : List String) :
    List String → OrderedMap String Nat × List String
  | [] => (ranks, met)
  | id :: queue =>
      let targets := a.successors id
      let new := fresh met targets
      walk a (raise ranks ((ranks.get? id).getD 0 + 1) targets) (met ++ new) (queue ++ new)
termination_by queue => (unmet a met, queue.length)
decreasing_by
  cases h : fresh met (a.successors id) with
  | nil =>
      simp only [List.append_nil]
      exact Prod.Lex.right _ (by simp)
  | cons t ts =>
      have ht : t ∈ fresh met (a.successors id) := by simp [h]
      simp only [fresh, List.mem_eraseDups, List.mem_filter] at ht
      exact Prod.Lex.left _ _
        (unmet_lt (a.mem_targets ht.1) (by simpa using ht.2) List.mem_cons_self)

/-- The ranking of a graph. -/
def of (a : Adjacency) : Ranking :=
  let walked := walk a (.ofKeys a.ids fun _ => 0) a.roots a.roots
  { ranks := walked.1
    order :=
      walked.2.filter a.contains ++ a.ids.filter fun id => !walked.2.contains id }

-- ==================================================== columns

/-- The rank of a schema; zero for an unknown one. -/
def rankOf (r : Ranking) (id : String) : Nat :=
  (r.ranks.get? id).getD 0

/-- The schemas on a rank, in their order. -/
def column (r : Ranking) (rank : Nat) : List String :=
  r.order.filter fun id => r.rankOf id = rank

/-- The place of a schema on its rank. -/
def slot (r : Ranking) (id : String) : Nat :=
  (r.column (r.rankOf id)).idxOf id

end Ranking

end SchemaAtlas
