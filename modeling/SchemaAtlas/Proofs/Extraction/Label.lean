/-
Labels of diagnostics: in which order the primary ones stand, and what
the secondary ones of replaced declarations mark.

What is reported while an input is read comes in the order of the source,
for each code. Unknown schemas and shared display names do not: they are
reported while a map is walked, whose order is that of first insertions,
at spans that are those of last insertions. The two orders agree unless
something that came first is registered or declared again behind
something that came later.

A declaration is reported with the one that it replaces. The label calls
this one the first, which it is as long as nothing is replaced twice.

- `Extraction.StartsInOrder`, `startsInOrder_spec`: the order, code by
  code; `not_startsInOrder` shows that it can fail.
- `MarksFirst`, `marksFirst_spec`: what the labels mark;
  `not_marksFirst_thrice` shows that it need not be the first one.
-/
import SchemaAtlas.Proofs.Extraction.Report

namespace SchemaAtlas

open Warning Catalog

-- ==================================================== vocabulary

/-- The primary labels under a code begin one behind the other. -/
def Extraction.StartsInOrder (e : Extraction) (code : DiagnosticCode) : Prop :=
  ((e.under code).flatMap Diagnostic.primaries).Pairwise fun s t => s.start < t.start

namespace Catalog

variable (input : Text)

/-- Where the first registration for a schema stands. -/
def firstRegistered (name : String) : Nat :=
  OrderedMap.firstPos Registration.schemaName (·.span.start) name (registered input)

/-- The first declaration that binds an identifier. -/
def firstDeclaration? (name : String) : Option Declaration :=
  ((found input).filter fun d => d.name = name).head?

/-- The first kept declaration, in the order of the catalog, that has a
display name. -/
def firstOfId? (id : String) : Option Declaration :=
  ((kept input).filter fun d => Assembly.idOf (scan input) d = id).head?

end Catalog

/-- The place of a declaration, if there is one. -/
def Declaration.place (d : Option Declaration) : List Span :=
  (d.map Declaration.span).toList

/-- The secondary labels of redeclarations mark the first declarations
of the identifiers. -/
def MarksFirst (input : Text) : Prop :=
  ((extract input).under .redeclaration).map Diagnostic.secondaries =
    (repeated input).map fun d => Declaration.place (firstDeclaration? input d.name)

/-- The secondary labels of shared display names mark the first kept
declarations that have them. -/
def MarksFirstOfId (input : Text) : Prop :=
  ((extract input).under .sharedDisplayName).map Diagnostic.secondaries =
    (replacing input).map fun d =>
      Declaration.place (firstOfId? input (Assembly.idOf (scan input) d))

-- ==================================================== order

section

variable (input : Text)

theorem startsInOrder_iff (code : DiagnosticCode) :
    (extract input).StartsInOrder code ↔
      ((pick code (extract input).warnings).map Warning.primary).Pairwise fun s t =>
        s.start < t.start := by
  have hprimaries : ((extract input).under code).flatMap Diagnostic.primaries =
      (pick code (extract input).warnings).map Warning.primary := by
    rw [Extraction.under_eq, List.flatMap_map, List.map_eq_flatMap]
    congr 1
    funext w
    exact primaries_diagnostic w
  rw [Extraction.StartsInOrder, hprimaries]

/-- What is made of the elements of a list is in order if the elements
that stand in front are made the smaller ones. -/
theorem pairwise_lt_iff {α : Type} {pos start : α → Nat} {xs : List α}
    (hpos : xs.Pairwise fun x y => pos x < pos y) :
    (xs.Pairwise fun x y => start x < start y) ↔
      ∀ x ∈ xs, ∀ y ∈ xs, pos x < pos y → start x < start y := by
  constructor
  · intro h x hx y hy hlt
    exact OrderedMap.rel_of_pos_lt pos hpos h hx hy hlt
  · intro h
    exact hpos.imp_of_mem fun hx hy hlt => h _ hx _ hy hlt

theorem pairwise_pick_ofUnit {code : DiagnosticCode} (h : code.isOfUnit = true) :
    (pick code (extract input).warnings).Pairwise fun w v =>
      w.primary.start < v.primary.start := by
  rw [pick_ofUnit input h]
  refine List.Pairwise.imp_of_mem ?_ ((SourceUnit.pairwise_warnings input).filter _)
  intro w v hw hv hprecedes
  have hcode : ∀ {x ws}, x ∈ pick code ws → x.code = code :=
    fun hx => of_decide_eq_true (List.mem_filter.1 hx).2
  exact hprecedes ((hcode hw).trans (hcode hv).symm)

theorem pairwise_pick_redeclaration :
    (pick .redeclaration (extract input).warnings).Pairwise fun w v =>
      w.primary.start < v.primary.start := by
  rw [pick_redeclaration]
  refine List.pairwise_filterMap.2 ((pairwise_starts input).imp ?_)
  intro d d' hlt w hw w' hw'
  obtain ⟨e, -, rfl⟩ := Option.map_eq_some_iff.1 hw
  obtain ⟨e', -, rfl⟩ := Option.map_eq_some_iff.1 hw'
  exact hlt

/-- The order of the primary labels, in every input. Under the codes of
what is reported while the input is read they begin one behind the
other. Under that of unknown schemas they do exactly when the last
registrations for these schemas stand in the order of the first ones;
under that of shared display names, when the last declarations of the
identifiers reported do. -/
theorem startsInOrder_spec :
    (∀ code, code ≠ .unknownSchema → code ≠ .sharedDisplayName →
        (extract input).StartsInOrder code)
      ∧ ((extract input).StartsInOrder .unknownSchema ↔
        ∀ r ∈ unresolved input, ∀ s ∈ unresolved input,
          firstRegistered input r.schemaName < firstRegistered input s.schemaName →
            r.span.start < s.span.start)
      ∧ ((extract input).StartsInOrder .sharedDisplayName ↔
        ∀ d ∈ replacing input, ∀ e ∈ replacing input,
          firstStart input d.name < firstStart input e.name → d.span.start < e.span.start) := by
  refine ⟨?read, ?unknown, ?shared⟩
  case read =>
    intro code hunknown hshared
    rw [startsInOrder_iff, List.pairwise_map]
    cases code with
    | unknownSchema => exact absurd rfl hunknown
    | sharedDisplayName => exact absurd rfl hshared
    | redeclaration => exact pairwise_pick_redeclaration input
    | openString => exact pairwise_pick_ofUnit input rfl
    | openComment => exact pairwise_pick_ofUnit input rfl
    | openBody => exact pairwise_pick_ofUnit input rfl
    | malformedRegistration => exact pairwise_pick_ofUnit input rfl
  case unknown =>
    have hmem : ∀ {r}, (r ∈ (scan input).registrations.values.filter fun r =>
        r.schemaName ∉ (found input).map Declaration.name) ↔ r ∈ unresolved input :=
      (perm_unresolved input).mem_iff
    rw [startsInOrder_iff, pick_unknownSchema, List.map_map, List.pairwise_map]
    refine (pairwise_lt_iff ((pairwise_values_registrations input).filter _)).trans ?_
    simp only [hmem]
    rfl
  case shared =>
    have hpick : (pick .sharedDisplayName (extract input).warnings).map Warning.primary =
        (replacing input).map Declaration.span := by
      rw [pick_sharedDisplayName, replacing_eq]
      refine map_filterMap_option (fun d _ => d.span) ?_ (kept input)
      intro d e
      rfl
    rw [startsInOrder_iff, hpick, List.pairwise_map]
    exact pairwise_lt_iff ((pairwise_values input).filter _)

end

/-- A schema that nothing declares is registered again behind another
one. -/
def registeredAgain : Text :=
  "model('M', A);\nmodel('N', B);\nmodel('O', A);\n".toList

/-- The second of three schemas of one model is declared again behind
the third. -/
def declaredAgain : Text :=
  ("var A = Schema(\x7b\x7d);\nvar B = Schema(\x7b\x7d);\nvar C = Schema(\x7b\x7d);\n" ++
    "var B = Schema(\x7b\x7d);\nmodel('X', A);\nmodel('X', B);\nmodel('X', C);\n").toList

/-- The schema registered last is reported first, and so is the one
declared last. -/
theorem not_startsInOrder :
    ¬ (extract registeredAgain).StartsInOrder .unknownSchema
      ∧ ¬ (extract declaredAgain).StartsInOrder .sharedDisplayName := by
  constructor
  · unfold Extraction.StartsInOrder
    decide +kernel
  · unfold Extraction.StartsInOrder
    decide +kernel

-- ==================================================== first declarations

section

variable {κ : Type} [DecidableEq κ] {key : Declaration → κ} {pos : Declaration → Nat}
  {ds : List Declaration}

theorem place_inj (hspan : ∀ d ∈ ds, ∀ e ∈ ds, d.span = e.span → d = e) {d e : Declaration}
    (hd : d ∈ ds) (he : e ∈ ds) :
    Declaration.place (some d) = Declaration.place (some e) ↔ d = e := by
  constructor
  · intro h
    exact hspan d hd e he (List.singleton_inj.1 h)
  · rintro rfl
    rfl

/-- The nearest declarations in front stand where the first ones do
exactly when no key has three declarations. -/
theorem places_previous?_iff (hpos : ds.Pairwise fun d e => pos d < pos e)
    (hspan : ∀ d ∈ ds, ∀ e ∈ ds, d.span = e.span → d = e) :
    ((ds.filter fun d => (OrderedMap.previous? key pos ds d).isSome).map fun d =>
        Declaration.place (OrderedMap.previous? key pos ds d)) =
      ((ds.filter fun d => (OrderedMap.previous? key pos ds d).isSome).map fun d =>
        Declaration.place (ds.filter fun e => key e = key d).head?) ↔
      ∀ k, (ds.map key).count k ≤ 2 := by
  rw [← OrderedMap.previous?_eq_head?_iff hpos, List.map_inj_left]
  constructor
  · intro h d hd e he
    have hplace := h d (List.mem_filter.2 ⟨hd, by rw [he]; rfl⟩)
    have hearlier := (OrderedMap.mem_earlier key pos).1 (List.mem_of_getLast? he)
    rw [he] at hplace
    cases hfirst : (ds.filter fun e => key e = key d).head? with
    | none =>
        rw [hfirst] at hplace
        cases hplace
    | some f =>
        have hf := (List.mem_filter.1 (List.mem_of_head? hfirst)).1
        rw [hfirst, place_inj hspan hearlier.1 hf] at hplace
        rw [hplace]
  · intro h d hd
    obtain ⟨hd, hsome⟩ := List.mem_filter.1 hd
    obtain ⟨e, he⟩ := Option.isSome_iff_exists.1 hsome
    rw [he, h d hd e he]

end

section

variable (input : Text)

theorem eq_of_span_eq_of_mem_found {d e : Declaration} (hd : d ∈ found input)
    (he : e ∈ found input) (h : d.span = e.span) : d = e :=
  OrderedMap.eq_of_pos_eq (·.span.start) (pairwise_starts input) hd he (congrArg Span.start h)

/-- What the secondary labels mark, in every input. A redeclaration is
reported with the nearest declaration in front that binds the
identifier, a shared display name with the nearest kept declaration in
front that has it. These are the first ones exactly when no identifier
is declared three times, and when no three kept declarations have one
display name. -/
theorem marksFirst_spec :
    (((extract input).under .redeclaration).map (fun g => (g.primaries, g.secondaries)) =
        (repeated input).map fun d =>
          ([d.span], Declaration.place (previousDeclaration? input d)))
      ∧ (((extract input).under .sharedDisplayName).map (fun g => (g.primaries, g.secondaries)) =
        (replacing input).map fun d => ([d.span], Declaration.place (previousOfId? input d)))
      ∧ (MarksFirst input ↔
        ∀ name, ((found input).map Declaration.name).count name ≤ 2)
      ∧ (MarksFirstOfId input ↔
        ∀ id, ((kept input).map (Assembly.idOf (scan input))).count id ≤ 2) := by
  have hredeclared : ((extract input).under .redeclaration).map
      (fun g => (g.primaries, g.secondaries)) = (repeated input).map fun d =>
        ([d.span], Declaration.place (previousDeclaration? input d)) := by
    rw [Extraction.under_eq, pick_redeclaration, List.map_map, repeated_eq]
    refine map_filterMap_option (fun d e => ([d.span], Declaration.place e)) ?_ (found input)
    intro d e
    rfl
  have hshared : ((extract input).under .sharedDisplayName).map
      (fun g => (g.primaries, g.secondaries)) = (replacing input).map fun d =>
        ([d.span], Declaration.place (previousOfId? input d)) := by
    rw [Extraction.under_eq, pick_sharedDisplayName, List.map_map, replacing_eq]
    refine map_filterMap_option (fun d e => ([d.span], Declaration.place e)) ?_ (kept input)
    intro d e
    rfl
  refine ⟨hredeclared, hshared, ?first, ?firstOfId⟩
  case first =>
    have hsecondaries := congrArg (List.map Prod.snd) hredeclared
    rw [List.map_map, List.map_map] at hsecondaries
    unfold MarksFirst
    rw [show ((extract input).under .redeclaration).map Diagnostic.secondaries = _ from
      hsecondaries, repeated_eq]
    exact places_previous?_iff (pairwise_starts input) fun d hd e he =>
      eq_of_span_eq_of_mem_found input hd he
  case firstOfId =>
    have hsecondaries := congrArg (List.map Prod.snd) hshared
    rw [List.map_map, List.map_map] at hsecondaries
    unfold MarksFirstOfId
    rw [show ((extract input).under .sharedDisplayName).map Diagnostic.secondaries = _ from
      hsecondaries, replacing_eq]
    exact places_previous?_iff (pairwise_values input) fun d hd e he =>
      eq_of_span_eq_of_mem_found input (mem_values_iff.1 hd).1 (mem_values_iff.1 he).1

end

/-- An identifier that is declared three times. -/
def declaredThrice : Text :=
  "var A = Schema(\x7b\x7d);\nvar A = Schema(\x7b\x7d);\nvar A = Schema(\x7b\x7d);\n".toList

/-- Three schemas of one model. -/
def shownThrice : Text :=
  ("var A = Schema(\x7b\x7d);\nvar B = Schema(\x7b\x7d);\nvar C = Schema(\x7b\x7d);\n" ++
    "model('X', A);\nmodel('X', B);\nmodel('X', C);\n").toList

/-- The third declaration is reported with the second one. -/
theorem not_marksFirst_thrice : ¬ MarksFirst declaredThrice ∧ ¬ MarksFirstOfId shownThrice := by
  constructor
  · unfold MarksFirst
    decide +kernel
  · unfold MarksFirstOfId
    decide +kernel

end SchemaAtlas
