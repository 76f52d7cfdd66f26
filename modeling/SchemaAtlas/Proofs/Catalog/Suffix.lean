/-
What is found behind other text. The matchers only read on, so what is
found at a token is told by it and the tokens behind it; those in front
tell no more than the statement that a registration is part of. Whatever
text stands in front, then, with bodies left open and type arguments that
never end, the same is found in the text behind it, as much further on as
the text in front is long (`Finding.all_isShift`), and it is found last
(`Finding.exists_all_append`). Later entries of a catalog replace earlier
ones, so all that the text behind declares and registers is kept.

The tokens behind must be read as on their own: a comment or a literal
that is left open in front would take them in.

- `Finding.IsShift`: a finding and the same further on.
- `UnitScan.exists_declarations_append`, `exists_registrations_append`:
  the findings of a text with another in front.
- `Catalog.get?_scan_append`: what the catalog keeps.
-/
import SchemaAtlas.Proofs.Catalog.Relocation
import SchemaAtlas.Proofs.Token.Trim

namespace SchemaAtlas

-- ==================================================== findings

/-- A registration and the same `n` bytes further on, perhaps as part of
another statement. -/
def Registration.IsShift (n : Nat) (r r' : Registration) : Prop :=
  r'.displayName = r.displayName ∧ r'.schemaName = r.schemaName ∧ r'.span = r.span.shift n

namespace Finding

/-- A finding and the same `n` bytes further on. -/
inductive IsShift (n : Nat) : Finding → Finding → Prop
  | declaration {d d' : Declaration} : d' = d.shift n →
      IsShift n (.declaration d) (.declaration d')
  | registration {r r' : Registration} : r.IsShift n r' →
      IsShift n (.registration r) (.registration r')
  | warning {w w' : Warning} : w' = w.shift n → IsShift n (.warning w) (.warning w')

variable (p q : Text) (unit : Option String)

theorem ofDeclaration_isShift (ts : List PlacedToken) :
    Option.Rel (IsShift p.width) (ofDeclaration (.alone unit q) ts)
      (ofDeclaration (.alone unit (p ++ q)) (ts.map (·.moved (· + p.width)))) := by
  unfold ofDeclaration
  rw [Shape.header?_moved]
  cases Shape.header? ts with
  | none => exact .none
  | some h =>
      have hbehind : (h.moved (· + p.width)).behind = h.behind.map (·.moved (· + p.width)) := rfl
      have hname : (h.moved (· + p.width)).nameSpan = h.nameSpan.shift p.width :=
        Span.moved_add p.width h.nameSpan
      have hbrace : (h.moved (· + p.width)).brace = h.brace.shift p.width :=
        Span.moved_add p.width h.brace
      simp only [Option.map_some, hbehind, hname, hbrace, Shape.closeBraces_moved]
      cases Shape.closeBraces 0 h.behind with
      | none => exact .some (.warning rfl)
      | some b =>
          obtain ⟨inside, closing, after⟩ := b
          have hbody : (p ++ q).slice (h.brace.stop + p.width) (closing.span.start + p.width) =
              q.slice h.brace.stop closing.span.start := by
            rw [Nat.add_comm h.brace.stop, Nat.add_comm closing.span.start,
              Text.slice_append_right]
          exact .some (.declaration (congrArg (Declaration.mk h.name ·
            (h.nameSpan.shift p.width) (h.brace.stop + p.width) unit) hbody))

theorem ofModel_isShift (n : Nat) (before before' : List PlacedToken) (word : Span)
    (ts : List PlacedToken) :
    Option.Rel (IsShift n) (ofModel (.alone unit q) before word ts)
      (ofModel (.alone unit (p ++ q)) before' (word.shift n) (ts.map (·.moved (· + n)))) := by
  have hcall : ∀ last : Span,
      (word.shift n).union (last.moved (· + n)) = (word.union last).shift n := by
    intro last
    rw [Span.moved_add, Span.union_shift]
  unfold ofModel
  rw [Shape.call?_moved]
  cases Shape.call? ts with
  | none => exact .none
  | some c =>
      have hbehind : (c.moved (· + n)).behind = c.behind.map (·.moved (· + n)) := rfl
      simp only [Option.map_some, hbehind, Shape.schemaArgument?_moved]
      cases Shape.schemaArgument? c.behind with
      | some a => exact .some (.registration ⟨rfl, rfl, hcall a.2⟩)
      | none =>
          cases c.behind with
          | nil =>
              exact .some (.warning (congrArg (Warning.malformedRegistration c.model)
                (hcall c.comma)))
          | cons t ts =>
              exact .some (.warning (congrArg (Warning.malformedRegistration c.model)
                (hcall t.span)))

/-- Among tokens with others in front, and further on, the same is
found. -/
theorem all_isShift (before before' ts : List PlacedToken) :
    List.Forall₂ (IsShift p.width) (all (.alone unit q) before ts)
      (all (.alone unit (p ++ q)) before' (ts.map (·.moved (· + p.width)))) := by
  refine all_related (PlacedToken.token_moved _) ?_ ?_ before before'
  · exact fun _ vs _ => ofDeclaration_isShift p q unit vs
  · intro before before' k vs
    have hspan : (k.moved (· + p.width)).span = k.span.shift p.width :=
      Span.moved_add p.width k.span
    rw [hspan]
    exact ofModel_isShift p q unit p.width before before' k.span vs

/-- What is found at the later tokens is found last. -/
theorem exists_all_append (u : SourceUnit) (before us ts : List PlacedToken) :
    ∃ front, all u before (us ++ ts) = front ++ all u (us.reverse ++ before) ts := by
  induction us generalizing before with
  | nil => exact ⟨[], rfl⟩
  | cons t us ih =>
      obtain ⟨front, hfront⟩ := ih (t :: before)
      rw [List.cons_append, all, List.reverse_cons, List.append_assoc]
      cases at? u before t (us ++ ts) with
      | none => exact ⟨front, hfront⟩
      | some f => exact ⟨f :: front, congrArg (f :: ·) hfront⟩

end Finding

namespace UnitScan

variable {p q : Text}
  (h : tokenize (p ++ q) = tokenize p ++ (tokenize q).map (·.shift p.width))
include h

/-- The findings of a text are the last ones of a text that it ends. -/
theorem exists_findings_append (unit : Option String) :
    ∃ front behind,
      Finding.all (.alone unit (p ++ q)) [] (significant (tokenize (p ++ q))) = front ++ behind
        ∧ List.Forall₂ (Finding.IsShift p.width)
          (Finding.all (.alone unit q) [] (significant (tokenize q))) behind := by
  have hmoved : (tokenize q).map (·.shift p.width) = (tokenize q).map (·.moved (· + p.width)) :=
    List.map_congr_left fun x _ => (PlacedToken.moved_add p.width x).symm
  have htokens : significant (tokenize (p ++ q)) = significant (tokenize p) ++
      (significant (tokenize q)).map (·.moved (· + p.width)) := by
    rw [h, hmoved, significant_append, significant_map (f := (·.moved (· + p.width))) fun _ => rfl]
  obtain ⟨front, hfront⟩ := Finding.exists_all_append (.alone unit (p ++ q)) []
    (significant (tokenize p)) ((significant (tokenize q)).map (·.moved (· + p.width)))
  rw [htokens]
  exact ⟨front, _, hfront, Finding.all_isShift p q unit [] _ _⟩

theorem exists_filterMap_append {α : Type} {R : α → α → Prop} {part : Finding → Option α}
    (hpart : ∀ x y, Finding.IsShift p.width x y → Option.Rel R (part x) (part y))
    (unit : Option String) :
    ∃ front behind,
      (Finding.all (.alone unit (p ++ q)) [] (significant (tokenize (p ++ q)))).filterMap part =
          front ++ behind
        ∧ List.Forall₂ R
          ((Finding.all (.alone unit q) [] (significant (tokenize q))).filterMap part) behind := by
  obtain ⟨front, behind, hall, hbehind⟩ := exists_findings_append h unit
  refine ⟨front.filterMap part, behind.filterMap part, ?_, ?_⟩
  · rw [hall, List.filterMap_append]
  · have hparts : Relator.LiftFun (Finding.IsShift p.width) (Option.Rel R) part part := hpart
    exact List.rel_filterMap hparts hbehind

/-- So are its declarations. -/
theorem exists_declarations_append (unit : Option String) :
    ∃ front behind, (of unit (p ++ q)).declarations = front ++ behind
      ∧ List.Forall₂ (fun d d' : Declaration => d' = d.shift p.width) (of unit q).declarations
        behind := by
  refine exists_filterMap_append h (fun x y hxy => ?_) unit
  cases hxy with
  | declaration hd => exact .some hd
  | registration _ => exact .none
  | warning _ => exact .none

/-- And its registrations. -/
theorem exists_registrations_append (unit : Option String) :
    ∃ front behind, (of unit (p ++ q)).registrations = front ++ behind
      ∧ List.Forall₂ (Registration.IsShift p.width) (of unit q).registrations behind := by
  refine exists_filterMap_append h (fun x y hxy => ?_) unit
  cases hxy with
  | declaration _ => exact .none
  | registration hr => exact .some hr
  | warning _ => exact .none

end UnitScan

-- ==================================================== catalogs

namespace Catalog

/-- What a text declares and registers is declared and registered with any
other text in front, if its tokens are read as on their own. -/
theorem get?_scan_append {p q : Text}
    (hmarkers : ∀ l ∈ (p ++ q).lines, SourceUnit.markerName? l = none)
    (hmarkers' : ∀ l ∈ q.lines, SourceUnit.markerName? l = none)
    (htokens : tokenize (p ++ q) = tokenize p ++ (tokenize q).map (·.shift p.width)) :
    (∀ name d, (scan q).declarations.get? name = some d →
        (scan (p ++ q)).declarations.get? name = some (d.shift p.width))
      ∧ ∀ name r, (scan q).registrations.get? name = some r →
        ∃ r', (scan (p ++ q)).registrations.get? name = some r' ∧ r.IsShift p.width r' := by
  constructor
  · intro name d hd
    obtain ⟨front, behind, hfound, hbehind⟩ := UnitScan.exists_declarations_append htokens none
    have hkeys : List.Forall₂ (fun d d' : Declaration => d'.name = d.name
        ∧ d' = d.shift p.width) (UnitScan.of none q).declarations behind :=
      hbehind.imp fun _ _ hd => ⟨(congrArg Declaration.name hd).trans rfl, hd⟩
    rw [declarations_scan, found_unmarked hmarkers'] at hd
    rw [declarations_scan, found_unmarked hmarkers, hfound]
    obtain ⟨d', hd', rfl⟩ := OrderedMap.get?_foldl_insert_append hkeys front hd
    exact hd'
  · intro name r hr
    obtain ⟨front, behind, hfound, hbehind⟩ := UnitScan.exists_registrations_append htokens none
    have hkeys : List.Forall₂ (fun r r' : Registration => r'.schemaName = r.schemaName
        ∧ r.IsShift p.width r') (UnitScan.of none q).registrations behind :=
      hbehind.imp fun _ _ hr => ⟨hr.2.1, hr⟩
    rw [registrations_scan, registered_unmarked hmarkers'] at hr
    rw [registrations_scan, registered_unmarked hmarkers, hfound]
    exact OrderedMap.get?_foldl_insert_append hkeys front hr

/-- A body that is left open, and names that are taken. -/
def brokenFront : Text :=
  "const A = Schema(\x7b x: 1 \x7d);\nmodel('Old', A);\nconst B = Schema(\x7b y: \x7b\n".toList

/-- The same names again, and a registration to be exported. -/
def soundBehind : Text :=
  "const A = Schema(\x7b z: B \x7d);\nexport default model('New', A);\n".toList

theorem get?_scan_append_brokenFront :
    ((∀ l ∈ (brokenFront ++ soundBehind).lines, SourceUnit.markerName? l = none)
        ∧ (∀ l ∈ soundBehind.lines, SourceUnit.markerName? l = none)
        ∧ tokenize (brokenFront ++ soundBehind) =
          tokenize brokenFront ++ (tokenize soundBehind).map (·.shift brokenFront.width))
      ∧ ((scan (brokenFront ++ soundBehind)).declarations.get? "A").map Declaration.body =
        some " z: B ".toList
      ∧ ∃ r, (scan (brokenFront ++ soundBehind)).registrations.get? "A" = some r
        ∧ r.displayName = "New" := by
  have hmarkers : ∀ l ∈ (brokenFront ++ soundBehind).lines, SourceUnit.markerName? l = none := by
    decide +kernel
  have hmarkers' : ∀ l ∈ soundBehind.lines, SourceUnit.markerName? l = none := by
    decide +kernel
  have htokens : tokenize (brokenFront ++ soundBehind) =
      tokenize brokenFront ++ (tokenize soundBehind).map (·.shift brokenFront.width) := by
    decide +kernel
  obtain ⟨hdeclared, hregistered⟩ := get?_scan_append hmarkers hmarkers' htokens
  refine ⟨⟨hmarkers, hmarkers', htokens⟩, ?_, ?_⟩
  · rw [hdeclared "A" ⟨"A", " z: B ".toList, Span.of 6 7, 18, none⟩ (by decide +kernel)]
    rfl
  · obtain ⟨r, hr, hname, -⟩ := hregistered "A"
      ⟨"New", "A", .defaultExport, Span.of 43 57⟩ (by decide +kernel)
    exact ⟨r, hr, hname⟩

end Catalog

end SchemaAtlas
