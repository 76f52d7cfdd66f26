/-
Deduplication of cycles. A cycle is reported unless one of the same key
was reported before, and the key stands for the set of its members only
as far as different sets have different keys. Where they do, each member
set is reported once, at the first schema that meets it; where two keys
collide, a set goes unreported.

- `OneForEachSet`: each member set once, at its first schema.
- `oneForEachSet_iff`: never twice, and once exactly if keys tell sets
  apart.
- `oneForEachSet_of_arrowless`: they do unless an id holds an arrow.
-/
import Mathlib.Data.List.Nodup
import SchemaAtlas.Proofs.Graph.CycleKey
import SchemaAtlas.Proofs.Issue.Circular

namespace SchemaAtlas

open CycleSearch

-- ==================================================== first of each key

namespace CycleSearch

variable {reported : List String} {ps : List (String × List String)}

/-- What is kept has a new key, and no cycle in front of it has that
key. -/
theorem mem_firstOfKeys {q : String × List String} (h : q ∈ firstOfKeys reported ps) :
    key q.2 ∉ reported ∧ ∃ us vs, ps = us ++ q :: vs ∧ ∀ p ∈ us, key p.2 ≠ key q.2 := by
  induction ps generalizing reported with
  | nil => cases h
  | cons p ps ih =>
      unfold firstOfKeys at h
      split at h
      · next hp =>
          obtain ⟨hq, us, vs, hps, hus⟩ := ih h
          refine ⟨hq, p :: us, vs, by rw [hps]; rfl, ?_⟩
          intro x hx e
          rcases List.mem_cons.1 hx with rfl | hx
          · exact hq (e ▸ List.contains_iff_mem.1 hp)
          · exact hus x hx e
      · next hp =>
          rcases List.mem_cons.1 h with rfl | h
          · refine ⟨fun hq => hp (List.contains_iff_mem.2 hq), [], ps, rfl, ?_⟩
            exact fun x hx => absurd hx List.not_mem_nil
          · obtain ⟨hq, us, vs, hps, hus⟩ := ih h
            obtain ⟨hqp, hq⟩ : key q.2 ≠ key p.2 ∧ key q.2 ∉ reported := by simpa using hq
            refine ⟨hq, p :: us, vs, by rw [hps]; rfl, ?_⟩
            intro x hx e
            rcases List.mem_cons.1 hx with rfl | hx
            · exact hqp e.symm
            · exact hus x hx e

/-- Every new key is kept once. -/
theorem exists_mem_firstOfKeys {p : String × List String} (hp : p ∈ ps)
    (hkey : key p.2 ∉ reported) : ∃ q ∈ firstOfKeys reported ps, key q.2 = key p.2 := by
  induction ps generalizing reported with
  | nil => cases hp
  | cons x ps ih =>
      unfold firstOfKeys
      split
      · next hx =>
          rcases List.mem_cons.1 hp with rfl | hp
          · exact absurd (List.contains_iff_mem.1 hx) hkey
          · exact ih hp hkey
      · by_cases e : key x.2 = key p.2
        · exact ⟨x, List.mem_cons_self, e⟩
        · rcases List.mem_cons.1 hp with rfl | hp
          · exact absurd rfl e
          · have hnew : key p.2 ∉ key x.2 :: reported := by
              rw [List.mem_cons]
              rintro (h | h)
              · exact e h.symm
              · exact hkey h
            obtain ⟨q, hq, hqp⟩ := ih hp hnew
            exact ⟨q, List.mem_cons_of_mem x hq, hqp⟩

theorem nodup_keys_firstOfKeys :
    ((firstOfKeys reported ps).map fun p => key p.2).Nodup := by
  induction ps generalizing reported with
  | nil => exact List.nodup_nil
  | cons p ps ih =>
      unfold firstOfKeys
      split
      · exact ih
      · rw [List.map_cons, List.nodup_cons]
        refine ⟨?_, ih⟩
        intro h
        obtain ⟨q, hq, e⟩ := List.mem_map.1 h
        exact (mem_firstOfKeys hq).1 (e ▸ List.mem_cons_self)

end CycleSearch

namespace Issue

-- ==================================================== one for each set

/-- Of the cycles found, each with the schema it was met from, at most
one is reported for each member set. -/
structure AtMostOneForEachSet (found reported : List (String × List String)) : Prop where
  /-- No member set is reported twice. -/
  distinct : reported.Pairwise fun p q => ¬ SameMembers p.2 q.2
  /-- A member set is reported at the first schema that meets it. -/
  first : ∀ q ∈ reported, ∃ us vs, found = us ++ q :: vs ∧ ∀ p ∈ us, ¬ SameMembers p.2 q.2

/-- Of the cycles found, one is reported for each member set. -/
structure OneForEachSet (found reported : List (String × List String)) : Prop
    extends AtMostOneForEachSet found reported where
  /-- No member set is dropped. -/
  complete : ∀ p ∈ found, ∃ q ∈ reported, SameMembers q.2 p.2

/-- Cycles of one key have the same members. -/
def KeysTellApart (found : List (String × List String)) : Prop :=
  ∀ p ∈ found, ∀ q ∈ found, key p.2 = key q.2 → SameMembers p.2 q.2

variable {found : List (String × List String)}

theorem atMostOneForEachSet_firstOfKeys :
    AtMostOneForEachSet found (firstOfKeys [] found) := by
  constructor
  · have hkeys : (firstOfKeys [] found).Pairwise fun p q => key p.2 ≠ key q.2 :=
      List.pairwise_map.1 nodup_keys_firstOfKeys
    exact hkeys.imp fun hne hsame => hne (key_eq_of_sameMembers hsame)
  · intro q hq
    obtain ⟨-, us, vs, hfound, hus⟩ := mem_firstOfKeys hq
    exact ⟨us, vs, hfound, fun p hp hsame => hus p hp (key_eq_of_sameMembers hsame)⟩

/-- No member set is dropped exactly if keys tell sets apart. -/
theorem oneForEachSet_firstOfKeys :
    OneForEachSet found (firstOfKeys [] found) ↔ KeysTellApart found := by
  constructor
  · intro h p hp q hq e
    obtain ⟨p', hp', hpp'⟩ := h.complete p hp
    obtain ⟨q', hq', hqq'⟩ := h.complete q hq
    -- the two reported have one key, so they are one cycle
    have hkeys : key p'.2 = key q'.2 := by
      rw [key_eq_of_sameMembers hpp', e, ← key_eq_of_sameMembers hqq']
    have heq : p' = q' := List.inj_on_of_nodup_map nodup_keys_firstOfKeys hp' hq' hkeys
    intro id
    rw [← hpp' id, heq, hqq' id]
  · intro h
    refine ⟨atMostOneForEachSet_firstOfKeys, ?_⟩
    intro p hp
    obtain ⟨q, hq, e⟩ := exists_mem_firstOfKeys hp List.not_mem_nil
    obtain ⟨-, us, vs, hfound, -⟩ := mem_firstOfKeys hq
    have hq' : q ∈ found := by
      rw [hfound]
      exact List.mem_append_right us List.mem_cons_self
    exact ⟨q, hq, h q hq' p hp e⟩

/-- The cycles that are reported among all issues. -/
theorem filter_detect_eq (threshold : Nat) (g : SchemaGraph) :
    (detect threshold g).filter (fun i => i.category = .circularDependency) =
      (firstOfKeys [] (firstCycles (Adjacency.of g) g.ids)).map ofCycle := by
  rw [filter_detect, circularDependencies_eq, Adjacency.ids_of]

theorem ofCycle_inj {p q : String × List String} (h : ofCycle p = ofCycle q) : p = q := by
  cases p
  cases q
  cases h
  rfl

theorem exists_oneForEachSet_iff :
    (∃ reported, (firstOfKeys [] found).map ofCycle = reported.map ofCycle
        ∧ OneForEachSet found reported) ↔ KeysTellApart found := by
  rw [← oneForEachSet_firstOfKeys]
  constructor
  · rintro ⟨reported, hreported, h⟩
    have heq : firstOfKeys [] found = reported :=
      (List.map_inj_right fun _ _ => ofCycle_inj).1 hreported
    rwa [heq]
  · intro h
    exact ⟨_, rfl, h⟩

/-- The circular dependencies among the issues are first cycles of the
schemas, at most one for each member set, and one for each exactly if no
two of those cycles share a key but not their members. -/
theorem oneForEachSet_iff (threshold : Nat) (g : SchemaGraph) :
    ∃ reported, (detect threshold g).filter (fun i => i.category = .circularDependency) =
        reported.map ofCycle
      ∧ AtMostOneForEachSet (firstCycles (Adjacency.of g) g.ids) reported
      ∧ (OneForEachSet (firstCycles (Adjacency.of g) g.ids) reported ↔
          KeysTellApart (firstCycles (Adjacency.of g) g.ids)) := by
  rw [filter_detect_eq]
  exact ⟨_, rfl, atMostOneForEachSet_firstOfKeys, oneForEachSet_firstOfKeys⟩

/-- Two schemas that refer to each other, and a schema that refers to
itself under a name that is the key of their cycle. -/
def arrowGraph : SchemaGraph :=
  ⟨[⟨"A", "ASchema", []⟩, ⟨"B", "BSchema", []⟩, ⟨"A->B", "A->BSchema", []⟩],
   [.foreignKey "A" "B" "b" .oneToOne, .foreignKey "B" "A" "a" .oneToOne,
    .foreignKey "A->B" "A->B" "self" .oneToOne]⟩

theorem firstCycles_arrowGraph :
    firstCycles (Adjacency.of arrowGraph) arrowGraph.ids =
      [("A", ["A", "B", "A"]), ("B", ["B", "A", "B"]), ("A->B", ["A->B", "A->B"])] := by
  have hids : arrowGraph.ids = ["A", "B", "A->B"] := by decide
  have hA : (Adjacency.of arrowGraph).successors "A" = ["B"] := by decide
  have hB : (Adjacency.of arrowGraph).successors "B" = ["A"] := by decide
  have hAB : (Adjacency.of arrowGraph).successors "A->B" = ["A->B"] := by decide
  have hsources : ∀ id ∈ ["A", "B", "A->B"], id ∈ (Adjacency.of arrowGraph).sources := by decide
  simp [firstCycles, firstCycle_fst, hids, hA, hB, hAB, hsources, explore]

/-- The cycle of `A->B` goes unreported, since that of `A` and `B` has
the same key. -/
theorem not_oneForEachSet_arrowGraph :
    ¬ ∃ reported, (detect 2 arrowGraph).filter (fun i => i.category = .circularDependency) =
        reported.map ofCycle
      ∧ OneForEachSet (firstCycles (Adjacency.of arrowGraph) arrowGraph.ids) reported := by
  rw [filter_detect_eq, exists_oneForEachSet_iff, firstCycles_arrowGraph]
  intro h
  have hkey : key ["A", "B", "A"] = key ["A->B", "A->B"] := by
    simp [key, List.eraseDups_cons, List.mergeSort]
  have hsame := h ("A", ["A", "B", "A"]) (by simp) ("A->B", ["A->B", "A->B"]) (by simp) hkey
  exact absurd ((hsame "A").1 (by simp)) (by decide)

-- ==================================================== ids without arrows

/-- Every member of a cycle is the source of a relationship. -/
theorem exists_relationship_of_mem_cycle {g : SchemaGraph} {p : String × List String}
    (hp : p ∈ firstCycles (Adjacency.of g) g.ids) :
    p.2 ≠ [] ∧ ∀ id ∈ p.2, ∃ r ∈ g.relationships, r.source = id := by
  obtain ⟨start, -, hstart⟩ := List.mem_filterMap.1 hp
  obtain ⟨cycle, hcycle, rfl⟩ := Option.map_eq_some_iff.1 hstart
  obtain ⟨v, hv, -⟩ := firstCycle_found hcycle
  refine ⟨?_, ?_⟩
  · obtain ⟨vs, hclosed, -⟩ := hv.closed
    intro hnil
    rw [hclosed] at hnil
    cases hnil
  · intro id hid
    obtain ⟨y, hy⟩ := hv.exists_leads id hid
    obtain ⟨r, hr, hsource, -⟩ := Adjacency.mem_successors_of.1 hy
    exact ⟨r, hr, hsource⟩

/-- Without arrows in the ids at which relationships start, each member
set is reported once, at the first schema that meets it. -/
theorem oneForEachSet_of_arrowless {g : SchemaGraph}
    (h : ∀ r ∈ g.relationships, Arrowless r.source.toList) :
    OneForEachSet (firstCycles (Adjacency.of g) g.ids)
      (firstOfKeys [] (firstCycles (Adjacency.of g) g.ids)) := by
  have harrowless : ∀ p ∈ firstCycles (Adjacency.of g) g.ids,
      p.2 ≠ [] ∧ ∀ id ∈ p.2, Arrowless id.toList := by
    intro p hp
    obtain ⟨hne, hmem⟩ := exists_relationship_of_mem_cycle hp
    refine ⟨hne, fun id hid => ?_⟩
    obtain ⟨r, hr, rfl⟩ := hmem id hid
    exact h r hr
  rw [oneForEachSet_firstOfKeys]
  intro p hp q hq e
  exact sameMembers_of_key_eq (harrowless p hp).1 (harrowless q hq).1 (harrowless p hp).2
    (harrowless q hq).2 e

end Issue

end SchemaAtlas
