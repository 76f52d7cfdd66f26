/-
The issues of a graph, read off its two lists. The passes look schemas
up in an adjacency that files relationships under both of their ends
and leaves out the ends that are no schemas; what they report can also
be told from the relationships alone, by filtering. Each pass but the
search for cycles has such a reading, and the issues are the four
groups one behind the other.

- `eraseDups_eq`: a list without repetitions, place by place.
- `brokenReferences_eq`, `orphanRisks_eq`, `cascadeRisks_eq`: the passes.
- `counted_of_detect`: the counters of an analysis.
- `Issue.Detects`: what is asked of the issues.
- `Issue.detect_eq_groups`: all issues, and what the counters say of
  them.
-/
import SchemaAtlas.Color.Css
import SchemaAtlas.Proofs.Analysis
import SchemaAtlas.Proofs.Issue.Circular

namespace SchemaAtlas

-- ==================================================== first occurrences

/-- The ids at the places where they stand for the first time. -/
def firstOccurrences (ids : List String) : List String :=
  (ids.zipIdx.filter fun p => ids.idxOf p.1 = p.2).map Prod.fst

theorem firstOccurrences_concat (ids : List String) (id : String) :
    firstOccurrences (ids ++ [id]) =
      firstOccurrences ids ++ if id ∈ ids then [] else [id] := by
  have hfront : ids.zipIdx.filter (fun p => (ids ++ [id]).idxOf p.1 = p.2) =
      ids.zipIdx.filter fun p => ids.idxOf p.1 = p.2 := by
    apply List.filter_congr
    intro p hp
    rw [List.idxOf_append_of_mem (List.fst_mem_of_mem_zipIdx hp)]
  unfold firstOccurrences
  rw [List.zipIdx_append, List.filter_append, hfront, List.map_append]
  congr 1
  by_cases hid : id ∈ ids
  · have hplace : ids.idxOf id < ids.length := List.idxOf_lt_length_of_mem hid
    have hne : ids.idxOf id ≠ ids.length := by omega
    simp [List.idxOf_append_of_mem hid, hid, hne]
  · simp [List.idxOf_append_of_notMem hid, hid]

/-- What is left of a list without its repetitions. -/
theorem eraseDups_eq (ids : List String) : ids.eraseDups = firstOccurrences ids := by
  induction ids using List.reverseRecOn with
  | nil => rfl
  | append_singleton ids id ih =>
      rw [firstOccurrences_concat, eraseDups_concat, ih]

-- ==================================================== what lists tell

namespace SchemaGraph

variable (g : SchemaGraph)

/-- The ids of the schemas, each at its first schema. -/
def schemaIds : List String :=
  firstOccurrences (g.schemas.map SchemaNode.id)

/-- Relationships whose target is no schema. -/
def unresolved : List Relationship :=
  g.relationships.filter fun r => r.target ∉ g.schemas.map SchemaNode.id

/-- Foreign keys that start at `id`. -/
def foreignKeys (id : String) : List Relationship :=
  g.relationships.filter fun r => r.source = id ∧ r.mechanism = .foreignKey

/-- Schemas that are referred to but refer to nothing. -/
def orphans : List String :=
  g.schemaIds.filter fun id =>
    (∃ r ∈ g.relationships, r.target = id) ∧ ¬ ∃ r ∈ g.relationships, r.source = id

/-- Schemas with more foreign keys than the threshold. -/
def cascading (threshold : Nat) : List String :=
  g.schemaIds.filter fun id => threshold < (g.foreignKeys id).length

end SchemaGraph

namespace Issue

variable (g : SchemaGraph)

/-- One broken reference for every unresolved relationship. -/
def brokenGroup : List Issue :=
  g.unresolved.map fun r => .brokenReference r.source r.field r.target

/-- One orphan risk for every orphan, with the schemas that refer to it. -/
def orphanGroup : List Issue :=
  g.orphans.map fun id =>
    .orphanRisk id (firstOccurrences ((g.incoming id).map Relationship.source))

/-- One cascade risk for every schema above the threshold, with the
number of its foreign keys and the schemas they refer to. -/
def cascadeGroup (threshold : Nat) : List Issue :=
  (g.cascading threshold).map fun id =>
    .cascadeRisk id (g.foreignKeys id).length
      (firstOccurrences ((g.foreignKeys id).map Relationship.target))

-- ==================================================== passes

theorem ids_eq : g.ids = g.schemaIds :=
  eraseDups_eq _

theorem brokenReferences_eq : brokenReferences g (Adjacency.of g) = brokenGroup g := by
  apply filterMap_eq_map_filter
  intro r _
  have hknown : (Adjacency.of g).contains r.target = true ↔
      r.target ∈ g.schemas.map SchemaNode.id := by
    rw [Adjacency.contains_of, ← SchemaGraph.mem_ids, SchemaGraph.ids, List.mem_eraseDups]
  by_cases h : r.target ∈ g.schemas.map SchemaNode.id
  · rw [if_pos (hknown.2 h), decide_eq_false (not_not_intro h), if_neg Bool.false_ne_true]
  · rw [if_neg (mt hknown.1 h), decide_eq_true h, if_pos rfl]

theorem orphanRisks_eq : orphanRisks (Adjacency.of g) = orphanGroup g := by
  unfold orphanRisks orphanGroup SchemaGraph.orphans
  rw [Adjacency.ids_of, ← ids_eq]
  apply filterMap_eq_map_filter
  intro id hid
  rw [Adjacency.inDegree, Adjacency.outDegree, Adjacency.incomingOf_of hid,
    Adjacency.outgoingOf_of, eraseDups_eq]
  have hin : (g.incoming id).length = 0 ↔ ¬ ∃ r ∈ g.relationships, r.target = id := by
    simp [SchemaGraph.incoming]
  have hout : 0 < (g.outgoing id).length ↔ ∃ r ∈ g.relationships, r.source = id := by
    rw [List.length_pos_iff_exists_mem]
    simp [SchemaGraph.outgoing]
  by_cases ht : ∃ r ∈ g.relationships, r.target = id
  · by_cases hs : ∃ r ∈ g.relationships, r.source = id
    · rw [decide_eq_true (hout.2 hs), Bool.or_true, if_pos rfl, if_neg (by simp [hs])]
    · rw [decide_eq_false (mt hin.1 (not_not_intro ht)), decide_eq_false (mt hout.1 hs),
        Bool.or_false, if_neg Bool.false_ne_true, if_pos (decide_eq_true ⟨ht, hs⟩)]
  · rw [decide_eq_true (hin.2 ht), Bool.true_or, if_pos rfl, if_neg (by simp [ht])]

theorem filter_outgoing (id : String) :
    (g.outgoing id).filter (fun r => r.mechanism = .foreignKey) = g.foreignKeys id := by
  unfold SchemaGraph.outgoing SchemaGraph.foreignKeys
  rw [List.filter_filter]
  apply List.filter_congr
  intro r _
  by_cases hs : r.source = id <;> by_cases hm : r.mechanism = .foreignKey <;> simp [hs, hm]

theorem cascadeRisks_eq (threshold : Nat) :
    cascadeRisks (Adjacency.of g) threshold = cascadeGroup g threshold := by
  unfold cascadeRisks cascadeGroup SchemaGraph.cascading
  rw [Adjacency.ids_of, ← ids_eq]
  apply filterMap_eq_map_filter
  intro id _
  dsimp only
  rw [Adjacency.outgoingOf_of, filter_outgoing, eraseDups_eq]
  by_cases h : threshold < (g.foreignKeys id).length
  · have hle : ¬ (g.foreignKeys id).length ≤ threshold := by omega
    rw [if_neg hle, if_pos (decide_eq_true h)]
  · have hle : (g.foreignKeys id).length ≤ threshold := by omega
    rw [if_pos hle, decide_eq_false h, if_neg Bool.false_ne_true]

theorem detect_eq (threshold : Nat) :
    detect threshold g =
      brokenGroup g ++ circularDependencies (Adjacency.of g) ++ orphanGroup g
        ++ cascadeGroup g threshold := by
  show brokenReferences g (Adjacency.of g) ++ _ ++ _ ++ _ = _
  rw [brokenReferences_eq, orphanRisks_eq, cascadeRisks_eq]

-- ==================================================== groups

/-- The issues of one category, each group told without the others. -/
def group (threshold : Nat) : IssueCategory → List Issue
  | .brokenReference => brokenGroup g
  | .circularDependency => circularDependencies (Adjacency.of g)
  | .orphanRisk => orphanGroup g
  | .cascadeRisk => cascadeGroup g threshold

variable {g} in
theorem category_of_mem_group {threshold : Nat} {c : IssueCategory} {i : Issue}
    (h : i ∈ group g threshold c) : i.category = c := by
  cases c with
  | brokenReference =>
      rw [group, ← brokenReferences_eq] at h
      exact category_of_mem_brokenReferences h
  | circularDependency => exact category_of_mem_circularDependencies h
  | orphanRisk =>
      rw [group, ← orphanRisks_eq] at h
      exact category_of_mem_orphanRisks h
  | cascadeRisk =>
      rw [group, ← cascadeRisks_eq] at h
      exact category_of_mem_cascadeRisks h

theorem filter_group (threshold : Nat) (c c' : IssueCategory) :
    (group g threshold c).filter (fun i => i.category = c') =
      if c = c' then group g threshold c else [] := by
  by_cases hc : c = c'
  · rw [if_pos hc, List.filter_eq_self]
    intro i hi
    exact decide_eq_true ((category_of_mem_group hi).trans hc)
  · rw [if_neg hc, List.filter_eq_nil_iff]
    intro i hi hcategory
    exact hc ((category_of_mem_group hi).symm.trans (of_decide_eq_true hcategory))

/-- The issues of a category are its group. -/
theorem filter_detect_group (threshold : Nat) (c : IssueCategory) :
    (detect threshold g).filter (fun i => i.category = c) = group g threshold c := by
  have hgroups : detect threshold g =
      group g threshold .brokenReference ++ group g threshold .circularDependency
        ++ group g threshold .orphanRisk ++ group g threshold .cascadeRisk :=
    detect_eq g threshold
  rw [hgroups, List.filter_append, List.filter_append, List.filter_append, filter_group,
    filter_group, filter_group, filter_group]
  cases c <;> simp

-- ==================================================== counters

/-- Every issue is counted under one severity. -/
theorem counts_add_up (is : List Issue) :
    is.countP (fun i => i.severity = .error) + is.countP (fun i => i.severity = .warning)
      + is.countP (fun i => i.severity = .info) = is.length := by
  induction is with
  | nil => rfl
  | cons i is ih =>
      rw [List.countP_cons, List.countP_cons, List.countP_cons, List.length_cons, ← ih]
      cases i.severity <;> simp <;> omega

/-- Errors are the broken references, one for each unresolved
relationship. -/
theorem countP_error (threshold : Nat) :
    (detect threshold g).countP (fun i => i.severity = .error) = g.unresolved.length := by
  have herror : ∀ i : Issue, decide (i.severity = .error) =
      decide (i.category = .brokenReference) := by
    intro i
    rw [severity]
    cases i.category <;> rfl
  rw [List.countP_eq_length_filter, List.filter_congr fun i _ => herror i,
    filter_detect_group g threshold .brokenReference]
  exact List.length_map _

end Issue

/-- An analysis of a text holds the graph of the text and the issues of
that graph. -/
theorem issues_of_analyze {c : Config} {readColor : ColorReader} {input : Text} {now : Moment}
    {a : Analysis} (h : c.analyze readColor input now = .ok a) :
    a.graph = (extract input).graph ∧ a.issues = Issue.detect c.cascadeThreshold a.graph := by
  obtain ⟨-, layout, -, rfl⟩ := Config.analyze_eq_ok_iff.1 h
  exact ⟨rfl, rfl⟩

/-- The counters of an analysis fit its issues and its graph. -/
structure Analysis.Counted (a : Analysis) : Prop where
  /-- Every issue is counted under one severity. -/
  addUp : a.summary.errors + a.summary.warnings + a.summary.infos = a.summary.issues
  all : a.summary.issues = a.issues.length
  /-- There is one error for each unresolved relationship. -/
  errors : a.summary.errors = a.graph.unresolved.length

/-- So they do if its issues are those of its graph. -/
theorem counted_of_detect {a : Analysis} {threshold : Nat}
    (h : a.issues = Issue.detect threshold a.graph) : a.Counted := by
  refine ⟨Issue.counts_add_up a.issues, rfl, ?_⟩
  show a.issues.countP _ = _
  rw [h]
  exact Issue.countP_error a.graph threshold

-- ==================================================== the whole

namespace Issue

/-- The issues of a graph in four groups, three of them told from the
lists of the graph. -/
structure Grouped (g : SchemaGraph) (threshold : Nat) (issues : List Issue) : Prop where
  /-- The groups stand one behind the other, with nothing between. -/
  inOrder : issues =
    brokenGroup g ++ circularDependencies (Adjacency.of g) ++ orphanGroup g
      ++ cascadeGroup g threshold
  /-- Each group holds exactly the issues of its category. -/
  byCategory : ∀ c : IssueCategory,
    issues.filter (fun i => i.category = c) = group g threshold c
  broken : ∀ i ∈ brokenGroup g, i.severity = .error
  circular : ∀ i ∈ circularDependencies (Adjacency.of g), i.severity = .warning
  orphan : ∀ i ∈ orphanGroup g, i.severity = .warning
  cascade : ∀ i ∈ cascadeGroup g threshold, i.severity = .info

/-- What is asked of the issues that `find` reports under a threshold,
and of the analyses that hold them. -/
structure Detects (find : Nat → SchemaGraph → List Issue) : Prop where
  grouped : ∀ g threshold, Grouped g threshold (find threshold g)
  counted : ∀ (a : Analysis) (threshold : Nat), a.issues = find threshold a.graph → a.Counted
  /-- The analysis of a text is such an analysis. -/
  analyzed : ∀ (c : Config) (readColor : ColorReader) (input : Text) (now : Moment)
    (a : Analysis), c.analyze readColor input now = .ok a →
      a.graph = (extract input).graph ∧ a.issues = find c.cascadeThreshold a.graph

/-- For every graph and threshold, the issues are the broken references,
the circular dependencies, the orphan risks and the cascade risks, in
this order. -/
theorem detect_eq_groups : Detects detect where
  grouped g threshold := by
    have hseverity : ∀ c : IssueCategory, ∀ i ∈ group g threshold c,
        i.severity = c.severity := by
      intro c i hi
      rw [severity, category_of_mem_group hi]
    exact ⟨detect_eq g threshold, filter_detect_group g threshold, hseverity .brokenReference,
      hseverity .circularDependency, hseverity .orphanRisk, hseverity .cascadeRisk⟩
  counted _ _ := counted_of_detect
  analyzed _ _ _ _ _ := issues_of_analyze

/-- A text with a missing schema: its one error is the broken reference. -/
theorem detect_eq_groups_missing :
    ∃ a : Analysis,
      ({} : Config).analyze Css.reader
          "const A = Schema(\x7b b: \x7b ref: 'B' \x7d \x7d);".toList ⟨0, 0⟩ = .ok a ∧
        .brokenReference "A" "b" "B" ∈ a.issues ∧ a.summary.errors = 1 ∧
        a.summary.errors + a.summary.warnings + a.summary.infos = a.summary.issues := by
  obtain ⟨a, ha⟩ : ∃ a, ({} : Config).analyze Css.reader
      "const A = Schema(\x7b b: \x7b ref: 'B' \x7d \x7d);".toList ⟨0, 0⟩ = .ok a := ⟨_, rfl⟩
  obtain ⟨hgraph, hissues⟩ := detect_eq_groups.analyzed _ _ _ _ _ ha
  have hcounted := detect_eq_groups.counted a _ hissues
  have hbroken : Issue.brokenReference "A" "b" "B" ∈ brokenGroup a.graph := by
    rw [hgraph]
    decide +kernel
  refine ⟨a, ha, ?_, ?_, hcounted.addUp⟩
  · rw [hissues, (detect_eq_groups.grouped a.graph _).inOrder]
    exact List.mem_append_left _ (List.mem_append_left _ (List.mem_append_left _ hbroken))
  · rw [hcounted.errors, hgraph]
    decide +kernel

end Issue

end SchemaAtlas
