/-
What the graph document of an analysis tells: its graph and its issues,
all of them and in order. The document is exact, so that its text tells
it; and every record in it can be read off its members. The kind of a
relationship and its mechanism are the ones of their words. Issues are
told apart by the key of their last member alone; the field of a broken
reference and the number of foreign keys have no member of their own and
are read off the message.

- `SchemaNode.document_inj`, `Relationship.document_inj`,
  `Issue.document_inj`: records.
- `Analysis.isExact_graphDocument`: the document is exact.
- `Analysis.render_graph_eq_iff`: texts are equal exactly if graphs and
  issues are.
-/
import SchemaAtlas.Document
import SchemaAtlas.Proofs.Json.Printer

namespace SchemaAtlas

open Json (IsExact)

/-- A list of strings is told by its document. -/
theorem Json.Value.strings_inj {ss ts : List String} (h : strings ss = strings ts) : ss = ts :=
  (List.map_inj_right fun _ _ => string.inj).1 (array.inj h)

-- ==================================================== schemas

namespace SchemaNode

theorem isExact_document (n : SchemaNode) : IsExact n.document := by
  apply IsExact.object
  simp only [List.forall_mem_cons]
  exact ⟨.string _, .string _, .strings _, List.forall_mem_nil _⟩

/-- A schema is told by its document. -/
theorem document_inj {m n : SchemaNode} (h : m.document = n.document) : m = n := by
  obtain ⟨id, declaredName, fields⟩ := m
  obtain ⟨id', declaredName', fields'⟩ := n
  simp only [document, Json.Value.object.injEq, List.cons.injEq, Prod.mk.injEq, true_and,
    Json.Value.string.injEq] at h
  obtain ⟨rfl, rfl, hfields, -⟩ := h
  rw [Json.Value.strings_inj hfields]

end SchemaNode

-- ==================================================== relationships

/-- A kind is the one of its word. -/
theorem RelationKind.ofLabel?_label (k : RelationKind) : ofLabel? k.label = some k := by
  cases k <;> rfl

/-- The words of the mechanisms differ. -/
theorem ReferenceMechanism.label_inj {m m' : ReferenceMechanism} (h : m.label = m'.label) :
    m = m' := by
  cases m <;> cases m' <;> first | rfl | simp [label] at h

namespace Relationship

theorem isExact_document (r : Relationship) : IsExact r.document := by
  apply IsExact.object
  simp only [List.forall_mem_cons]
  exact ⟨.string _, .string _, .string _, .string _, .string _, .boolean _, List.forall_mem_nil _⟩

/-- A relationship is told by its document. -/
theorem document_inj {q r : Relationship} (h : q.document = r.document) : q = r := by
  obtain ⟨source, target, field, kind, mechanism, risk⟩ := q
  obtain ⟨source', target', field', kind', mechanism', risk'⟩ := r
  simp only [document, Json.Value.object.injEq, List.cons.injEq, Prod.mk.injEq, true_and,
    Json.Value.string.injEq, Json.Value.boolean.injEq] at h
  obtain ⟨rfl, rfl, rfl, hkind, hmechanism, rfl, -⟩ := h
  have hkind := congrArg RelationKind.ofLabel? hkind
  rw [RelationKind.ofLabel?_label, RelationKind.ofLabel?_label] at hkind
  rw [Option.some.inj hkind, ReferenceMechanism.label_inj hmechanism]

end Relationship

-- ==================================================== issues

namespace Issue

theorem isExact_detail (i : Issue) : IsExact i.detail.2 := by
  cases i with
  | brokenReference => exact .string _
  | circularDependency => exact .strings _
  | orphanRisk => exact .strings _
  | cascadeRisk => exact .strings _

theorem isExact_document (i : Issue) : IsExact i.document := by
  apply IsExact.object
  simp only [List.forall_mem_cons]
  exact ⟨.string _, .string _, .string _, .string _, isExact_detail i, List.forall_mem_nil _⟩

/-- The category whose issues have a member of the given key. -/
def categoryOfKey? (key : String) : Option IssueCategory :=
  if key = "targetSchema" then some .brokenReference
  else if key = "cyclePath" then some .circularDependency
  else if key = "referencingSchemas" then some .orphanRisk
  else if key = "targetSchemas" then some .cascadeRisk
  else none

/-- The key of the last member tells the category. -/
theorem categoryOfKey?_detail (i : Issue) : categoryOfKey? i.detail.1 = some i.category := by
  cases i with
  | brokenReference => rfl
  | circularDependency => rfl
  | orphanRisk => rfl
  | cascadeRisk => rfl

/-- The message of a broken reference has the field between subject and
target. -/
theorem message_brokenReference (subject field target : String) :
    (brokenReference subject field target).message =
      ("\"" ++ subject ++ ".") ++ field ++
        ("\" references \"" ++ target ++ "\" which doesn't exist in your schemas") := by
  apply String.toList_injective
  show ("\"" ++ (subject ++ "." ++ field) ++ "\"" ++ " references " ++ ("\"" ++ target ++ "\"")
    ++ " which doesn't exist in your schemas").toList = _
  simp only [String.toList_append, List.append_assoc]
  rfl

/-- The message of a cascade risk has the number of foreign keys between
subject and targets. -/
theorem message_cascadeRisk (subject : String) (foreignKeys : Nat) (targets : List String) :
    (cascadeRisk subject foreignKeys targets).message =
      ("\"" ++ subject ++ "\" references ") ++ Nat.repr foreignKeys ++
        (" other schemas (" ++ (String.intercalate ", " targets
          ++ "). Consider cascade deletion strategy")) := by
  apply String.toList_injective
  show ("\"" ++ subject ++ "\"" ++ " references " ++ Nat.repr foreignKeys ++ " other schemas ("
    ++ String.intercalate ", " targets ++ "). Consider cascade deletion strategy").toList = _
  simp only [String.toList_append, List.append_assoc]
  rfl

/-- A broken reference tells its field by the message. -/
theorem field_inj {subject field field' target : String}
    (h : (brokenReference subject field target).message =
      (brokenReference subject field' target).message) : field = field' := by
  rw [message_brokenReference, message_brokenReference] at h
  exact (String.append_right_inj _).1 ((String.append_left_inj _).1 h)

/-- A cascade risk tells its number of foreign keys by the message. -/
theorem foreignKeys_inj {subject : String} {foreignKeys foreignKeys' : Nat}
    {targets : List String}
    (h : (cascadeRisk subject foreignKeys targets).message =
      (cascadeRisk subject foreignKeys' targets).message) : foreignKeys = foreignKeys' := by
  rw [message_cascadeRisk, message_cascadeRisk] at h
  have hrepr := (String.append_right_inj _).1 ((String.append_left_inj _).1 h)
  exact (Text.repr_append_inj (by rintro c ⟨⟩) (by rintro c ⟨⟩)
    (congrArg (fun s => s.toList ++ []) hrepr)).1

/-- An issue is told by its document. -/
theorem document_inj {i j : Issue} (h : i.document = j.document) : i = j := by
  simp only [document, Json.Value.object.injEq, List.cons.injEq, Prod.mk.injEq, true_and,
    Json.Value.string.injEq, and_true] at h
  obtain ⟨-, -, hmessage, hsubject, hdetail⟩ := h
  have hcategory : i.category = j.category := by
    have hkey := congrArg (fun m => categoryOfKey? m.1) hdetail
    exact Option.some.inj
      ((categoryOfKey?_detail i).symm.trans (hkey.trans (categoryOfKey?_detail j)))
  cases i with
  | brokenReference subject field target =>
      cases j with
      | brokenReference subject' field' target' =>
          obtain rfl : subject = subject' := hsubject
          obtain rfl : target = target' := Json.Value.string.inj (congrArg Prod.snd hdetail)
          rw [field_inj hmessage]
      | _ => cases hcategory
  | circularDependency subject path =>
      cases j with
      | circularDependency subject' path' =>
          obtain rfl : subject = subject' := hsubject
          rw [Json.Value.strings_inj (congrArg Prod.snd hdetail)]
      | _ => cases hcategory
  | orphanRisk subject referencers =>
      cases j with
      | orphanRisk subject' referencers' =>
          obtain rfl : subject = subject' := hsubject
          rw [Json.Value.strings_inj (congrArg Prod.snd hdetail)]
      | _ => cases hcategory
  | cascadeRisk subject foreignKeys targets =>
      cases j with
      | cascadeRisk subject' foreignKeys' targets' =>
          obtain rfl : subject = subject' := hsubject
          obtain rfl : targets = targets' :=
            Json.Value.strings_inj (congrArg Prod.snd hdetail)
          rw [foreignKeys_inj hmessage]
      | _ => cases hcategory

end Issue

-- ==================================================== graphs

namespace SchemaGraph

theorem isExact_members (g : SchemaGraph) : ∀ m ∈ g.members, IsExact m.2 := by
  simp only [members, List.forall_mem_cons]
  refine ⟨.array ?_, .array ?_, List.forall_mem_nil _⟩
  · exact List.forall_mem_map.2 fun n _ => n.isExact_document
  · exact List.forall_mem_map.2 fun r _ => r.isExact_document

/-- A graph is told by the members of its document. -/
theorem members_inj {g h : SchemaGraph} (hmembers : g.members = h.members) : g = h := by
  obtain ⟨schemas, relationships⟩ := g
  obtain ⟨schemas', relationships'⟩ := h
  simp only [members, List.cons.injEq, Prod.mk.injEq, true_and, and_true,
    Json.Value.array.injEq] at hmembers
  obtain ⟨hschemas, hrelationships⟩ := hmembers
  rw [(List.map_inj_right fun _ _ => SchemaNode.document_inj).1 hschemas,
    (List.map_inj_right fun _ _ => Relationship.document_inj).1 hrelationships]

end SchemaGraph

-- ==================================================== analyses

namespace Analysis

theorem isExact_graphDocument (a : Analysis) : IsExact a.graphDocument := by
  apply IsExact.object
  rw [List.forall_mem_append, List.forall_mem_singleton]
  exact ⟨a.graph.isExact_members, .array (List.forall_mem_map.2 fun i _ => i.isExact_document)⟩

/-- The document tells the graph, whose members come first, and the
issues. -/
theorem graphDocument_inj {a b : Analysis} (h : a.graphDocument = b.graphDocument) :
    a.graph = b.graph ∧ a.issues = b.issues := by
  obtain ⟨hmembers, hlast⟩ := List.append_inj' (Json.Value.object.inj h) rfl
  simp only [List.cons.injEq, Prod.mk.injEq, true_and, and_true, Json.Value.array.injEq] at hlast
  exact ⟨SchemaGraph.members_inj hmembers,
    (List.map_inj_right fun _ _ => Issue.document_inj).1 hlast⟩

/-- Two analyses have the same graph document exactly if they have the
same graph and the same issues. -/
theorem render_graph_eq_iff (a b : Analysis) :
    a.render .graph = b.render .graph ↔ a.graph = b.graph ∧ a.issues = b.issues := by
  constructor
  · intro h
    exact graphDocument_inj ((isExact_graphDocument a).pretty_inj (isExact_graphDocument b) h)
  · rintro ⟨hgraph, hissues⟩
    show Json.pretty a.graphDocument = Json.pretty b.graphDocument
    rw [graphDocument, graphDocument, hgraph, hissues]

end Analysis

end SchemaAtlas
