/-
Detection of issues in four passes over a graph: relationships to
missing schemas, cycles, schemas that are referred to but refer to
nothing, and schemas with many foreign keys. Within a pass, issues come
in schema order (relationship order in the first).
-/
import SchemaAtlas.Graph.Cycle
import SchemaAtlas.Issue.Basic

namespace SchemaAtlas

namespace Issue

/-- Relationships whose target is no schema. -/
def brokenReferences (g : SchemaGraph) (a : Adjacency) : List Issue :=
  g.relationships.filterMap fun r =>
    if a.contains r.target then none else some (.brokenReference r.source r.field r.target)

/-- The cycles met from the given starts, each member set once. `known`
are the ids known to lead to no cycle, `reported` the keys of the cycles
reported before. -/
def cyclesFrom (a : Adjacency) (known reported : List String) : List String → List Issue
  | [] => []
  | start :: starts =>
      match CycleSearch.firstCycle a known start with
      | (none, known) => cyclesFrom a known reported starts
      | (some cycle, known) =>
          let key := CycleSearch.key cycle
          if reported.contains key then cyclesFrom a known reported starts
          else .circularDependency start cycle :: cyclesFrom a known (key :: reported) starts

/-- Cycles, each reported at the first schema that leads to it. -/
def circularDependencies (a : Adjacency) : List Issue :=
  cyclesFrom a [] [] a.ids

/-- Schemas that are referred to but refer to nothing. -/
def orphanRisks (a : Adjacency) : List Issue :=
  a.ids.filterMap fun id =>
    if a.inDegree id = 0 || 0 < a.outDegree id then none
    else some (.orphanRisk id ((a.incomingOf id).map Relationship.source).eraseDups)

/-- Schemas with more foreign keys than the threshold. -/
def cascadeRisks (a : Adjacency) (threshold : Nat) : List Issue :=
  a.ids.filterMap fun id =>
    let keys := (a.outgoingOf id).filter fun r => r.mechanism = .foreignKey
    if keys.length ≤ threshold then none
    else some (.cascadeRisk id keys.length (keys.map Relationship.target).eraseDups)

/-- All issues of a graph. -/
def detect (threshold : Nat) (g : SchemaGraph) : List Issue :=
  let a := Adjacency.of g
  brokenReferences g a ++ circularDependencies a ++ orphanRisks a ++ cascadeRisks a threshold

end Issue

end SchemaAtlas
