/-
Circular dependencies. Which cycle is met from a schema does not depend
on the schemas searched before, so the pass over all schemas reports the
first cycles of a fresh search, less those whose key came up earlier.

- `SchemaGraph.IsCyclePath`: a cycle as it is reported from a schema.
- `cyclesFrom_eq`: the cycles reported, apart from the search.
- `firstCycle_sound_complete`: a cycle is found exactly where there is
  one, whatever was searched before.
-/
import SchemaAtlas.Issue.Detect
import SchemaAtlas.Proofs.Graph.Search

namespace SchemaAtlas

open Relation CycleSearch

-- ==================================================== cycles of a graph

/-- A cycle that the start leads to. It ends with the id it begins with,
repeats no other, and follows relationships throughout. -/
def SchemaGraph.IsCyclePath (g : SchemaGraph) (start : String) (path : List String) : Prop :=
  ∃ v vs, path = v :: vs ++ [v] ∧ (v :: vs).Nodup ∧ path.IsChain g.Links ∧ g.Reaches start v

theorem leads_of (g : SchemaGraph) : Leads (Adjacency.of g) = g.Links := by
  funext u v
  exact propext Adjacency.mem_successors_of

-- ==================================================== first cycles

namespace CycleSearch

/-- The starts that lead to a cycle, each with the first one met by a
search that remembers nothing. -/
def firstCycles (a : Adjacency) (starts : List String) : List (String × List String) :=
  starts.filterMap fun start => (firstCycle a [] start).1.map fun cycle => (start, cycle)

/-- Cycles whose key comes up for the first time, given the keys that
came up before. -/
def firstOfKeys (reported : List String) :
    List (String × List String) → List (String × List String)
  | [] => []
  | p :: ps =>
      if reported.contains (key p.2) then firstOfKeys reported ps
      else p :: firstOfKeys (key p.2 :: reported) ps

end CycleSearch

namespace Issue

/-- The issue that reports a cycle. -/
def ofCycle (p : String × List String) : Issue :=
  .circularDependency p.1 p.2

/-- The cycles reported are first cycles, whatever was searched before. -/
theorem cyclesFrom_eq {a : Adjacency} {known : List String} (h : Settled a known)
    (reported starts : List String) :
    cyclesFrom a known reported starts =
      (firstOfKeys reported (firstCycles a starts)).map ofCycle := by
  induction starts generalizing known reported with
  | nil => rfl
  | cons start starts ih =>
      have hsettled := (firstCycle_settled h start).1
      have hfst : (firstCycle a known start).1 = (firstCycle a [] start).1 := firstCycle_fst_eq h
      cases hresult : firstCycle a known start with
      | mk result known' =>
          rw [hresult] at hsettled hfst
          cases result with
          | none =>
              have hskip : firstCycles a (start :: starts) = firstCycles a starts :=
                List.filterMap_cons_none (by rw [← hfst]; rfl)
              rw [cyclesFrom, hresult, hskip]
              exact ih hsettled reported
          | some cycle =>
              have hfirst : firstCycles a (start :: starts) =
                  (start, cycle) :: firstCycles a starts :=
                List.filterMap_cons_some (by rw [← hfst]; rfl)
              rw [cyclesFrom, hresult, hfirst, firstOfKeys]
              simp only
              split
              · exact ih hsettled reported
              · rw [ih hsettled]
                rfl

theorem circularDependencies_eq (a : Adjacency) :
    circularDependencies a = (firstOfKeys [] (firstCycles a a.ids)).map ofCycle :=
  cyclesFrom_eq settled_nil [] a.ids

-- ==================================================== passes

section

variable {a : Adjacency} {i : Issue}

theorem category_of_mem_brokenReferences {g : SchemaGraph} (h : i ∈ brokenReferences g a) :
    i.category = .brokenReference := by
  obtain ⟨r, -, hr⟩ := List.mem_filterMap.1 h
  split at hr <;> cases hr
  rfl

theorem category_of_mem_circularDependencies (h : i ∈ circularDependencies a) :
    i.category = .circularDependency := by
  rw [circularDependencies_eq] at h
  obtain ⟨p, -, rfl⟩ := List.mem_map.1 h
  rfl

theorem category_of_mem_orphanRisks (h : i ∈ orphanRisks a) : i.category = .orphanRisk := by
  obtain ⟨id, -, hid⟩ := List.mem_filterMap.1 h
  split at hid <;> cases hid
  rfl

theorem category_of_mem_cascadeRisks {threshold : Nat} (h : i ∈ cascadeRisks a threshold) :
    i.category = .cascadeRisk := by
  obtain ⟨id, -, hid⟩ := List.mem_filterMap.1 h
  simp only at hid
  split at hid <;> cases hid
  rfl

end

/-- The circular dependencies among all issues are those of their pass. -/
theorem filter_detect (threshold : Nat) (g : SchemaGraph) :
    (detect threshold g).filter (fun i => i.category = .circularDependency) =
      circularDependencies (Adjacency.of g) := by
  have hnone : ∀ {is : List Issue} {c : IssueCategory}, (∀ i ∈ is, i.category = c) →
      c ≠ .circularDependency → is.filter (fun i => i.category = .circularDependency) = [] := by
    intro is c his hc
    rw [List.filter_eq_nil_iff]
    intro i hi
    simpa [his i hi] using hc
  have hall : (circularDependencies (Adjacency.of g)).filter
      (fun i => i.category = .circularDependency) = circularDependencies (Adjacency.of g) := by
    rw [List.filter_eq_self]
    intro i hi
    simpa using category_of_mem_circularDependencies hi
  unfold detect
  rw [List.filter_append, List.filter_append, List.filter_append, hall,
    hnone (fun _ h => category_of_mem_brokenReferences h) (by decide),
    hnone (fun _ h => category_of_mem_orphanRisks h) (by decide),
    hnone (fun _ h => category_of_mem_cascadeRisks h) (by decide)]
  simp

-- ==================================================== soundness and completeness

theorem firstCycles_eq_nil_iff {g : SchemaGraph} :
    firstCycles (Adjacency.of g) (Adjacency.of g).ids = [] ↔
      ∀ n ∈ g.schemas, ¬ g.LeadsToCycle n.id := by
  have hnone : ∀ id, (firstCycle (Adjacency.of g) [] id).1 = none ↔ ¬ g.LeadsToCycle id := by
    intro id
    rw [← Option.not_isSome_iff_eq_none, firstCycle_isSome_iff settled_nil, leads_of]
    rfl
  unfold firstCycles
  rw [List.filterMap_eq_nil_iff, Adjacency.ids_of]
  simp [SchemaGraph.ids, hnone]

theorem firstOfKeys_eq_nil_iff {ps : List (String × List String)} :
    firstOfKeys [] ps = [] ↔ ps = [] := by
  cases ps <;> simp [firstOfKeys]

/-- Whatever was searched before, a search finds a cycle exactly if its
start leads to one, and finds the one that a first search would. So no
circular dependency is reported exactly if no schema leads to a cycle. -/
theorem firstCycle_sound_complete (g : SchemaGraph) :
    (∀ (earlier : List String) (start : String),
      let a := Adjacency.of g
      let found := (firstCycle a (knownAfter a earlier) start).1
      (found.isSome = true ↔ g.LeadsToCycle start)
        ∧ (∀ path ∈ found, g.IsCyclePath start path)
        ∧ found = (firstCycle a [] start).1)
    ∧ ∀ threshold, (∀ i ∈ detect threshold g, i.category ≠ .circularDependency) ↔
        ∀ n ∈ g.schemas, ¬ g.LeadsToCycle n.id := by
  constructor
  · intro earlier start
    have hsettled : Settled (Adjacency.of g) (knownAfter (Adjacency.of g) earlier) :=
      settled_knownAfter earlier
    refine ⟨?_, ?_, firstCycle_fst_eq hsettled⟩
    · rw [firstCycle_isSome_iff hsettled, leads_of]
      rfl
    · intro path hpath
      obtain ⟨v, hv, hreach⟩ := firstCycle_found hpath
      obtain ⟨vs, hclosed, hnodup⟩ := hv.closed
      have hchain := hv.chain
      rw [leads_of] at hchain hreach
      exact ⟨v, vs, hclosed, hnodup, hchain, hreach⟩
  · intro threshold
    rw [← firstCycles_eq_nil_iff, ← firstOfKeys_eq_nil_iff,
      ← List.map_eq_nil_iff (f := ofCycle), ← circularDependencies_eq,
      ← filter_detect threshold g, List.filter_eq_nil_iff]
    simp

end Issue

end SchemaAtlas
