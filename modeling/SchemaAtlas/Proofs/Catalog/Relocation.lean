/-
Findings among tokens at other places. The matchers go by the tokens and
only hand on where these stand; so among the same tokens at other places
they find the same, and the spans in what they find move along.

- `Shape.header?_moved`, `Shape.closeBraces_moved`, `Shape.call?_moved`:
  the matchers.
- `Finding.all_related`: what relates declarations and registrations
  wherever the matchers set out relates all that is found.
- `Finding.Follows`: a finding and the same among the moved tokens.
- `UnitScan.declarations_follow`, `UnitScan.registrations_follow`: texts
  whose significant tokens differ in their places alone.
-/
import Mathlib.Data.List.Forall2
import SchemaAtlas.Proofs.Catalog.Agreement
import SchemaAtlas.Proofs.Catalog.Recast
import SchemaAtlas.Proofs.Catalog.Shape
import SchemaAtlas.Proofs.Token.BlankOut

namespace SchemaAtlas

@[simp] theorem PlacedToken.token_moved (f : Nat → Nat) (t : PlacedToken) :
    (t.moved f).token = t.token := rfl

namespace Recast

/-- The tokens where the positions of their text are moved. -/
def moving (f : Nat → Nat) : Recast :=
  ⟨(·.moved f), id⟩

theorem token_moving (f : Nat → Nat) (t : Token) : (moving f).token t = t := by
  cases t with
  | string content quote closed => cases closed <;> rfl
  | _ => rfl

theorem placed_moving (f : Nat → Nat) : (moving f).placed = (·.moved f) := by
  funext t
  rw [placed, token_moving]
  rfl

end Recast

namespace Shape

-- ==================================================== matchers

variable (f : Nat → Nat) (ts : List PlacedToken)

theorem closeBraces_moved (depth : Nat) :
    closeBraces depth (ts.map (·.moved f)) =
      (closeBraces depth ts).map fun b =>
        (b.1.map (·.moved f), b.2.1.moved f, b.2.2.map (·.moved f)) := by
  have h := closeBraces_recast (.moving f) ts depth
  rwa [Recast.placed_moving] at h

/-- The head among the moved tokens. -/
def Header.moved (h : Header) : Header :=
  ⟨h.name, h.nameSpan.moved f, h.brace.moved f, h.behind.map (·.moved f)⟩

theorem header?_moved : header? (ts.map (·.moved f)) = (header? ts).map (·.moved f) := by
  have h := header?_recast (.moving f) ts
  unfold Header.recast at h
  rwa [Recast.placed_moving] at h

/-- The head of a registration among the moved tokens. -/
def Call.moved (c : Call) : Call :=
  ⟨c.model, c.comma.moved f, c.behind.map (·.moved f)⟩

theorem call?_moved : call? (ts.map (·.moved f)) = (call? ts).map (·.moved f) := by
  have h := call?_recast (.moving f) ts
  unfold Call.recast at h
  rwa [Recast.placed_moving] at h

theorem schemaArgument?_moved :
    schemaArgument? (ts.map (·.moved f)) =
      (schemaArgument? ts).map fun a => (a.1, a.2.moved f) := by
  have h := schemaArgument?_recast (.moving f) ts
  rwa [Recast.placed_moving] at h

end Shape

-- ==================================================== findings

/-- The declaration `d'` of the text `t'` is the declaration `d` of `t`
among moved tokens: their bodies stand between the same braces. -/
def Declaration.Follows (t t' : Text) (f : Nat → Nat) (d d' : Declaration) : Prop :=
  d'.name = d.name ∧ ∃ before opening inside closing after,
    significant (tokenize t) = before ++ opening :: (inside ++ closing :: after)
      ∧ opening.token = .mark .leftBrace ∧ closing.token = .mark .rightBrace
      ∧ d.bodyStart = opening.span.stop
      ∧ d.body = t.slice opening.span.stop closing.span.start
      ∧ d'.body = t'.slice (f opening.span.stop) (f closing.span.start)

namespace Finding

/-- If declarations and registrations are alike wherever the matchers set
out, all that is found is alike. -/
theorem all_related {R : Finding → Finding → Prop} {u u' : SourceUnit}
    {f : PlacedToken → PlacedToken} {ts : List PlacedToken} (hf : ∀ k, (f k).token = k.token)
    (hdeclaration : ∀ us vs, ts = us ++ vs →
      Option.Rel R (ofDeclaration u vs) (ofDeclaration u' (vs.map f)))
    (hmodel : ∀ before before' k vs,
      Option.Rel R (ofModel u before k.span vs) (ofModel u' before' (f k).span (vs.map f)))
    (before before' : List PlacedToken) :
    List.Forall₂ R (all u before ts) (all u' before' (ts.map f)) := by
  induction ts generalizing before before' with
  | nil => exact .nil
  | cons k ts ih =>
      have hat : Option.Rel R (at? u before k ts) (at? u' before' (f k) (ts.map f)) := by
        unfold at?
        rw [hf]
        split
        · split
          · exact hdeclaration [k] ts rfl
          · exact .none
        · exact hmodel before before' k ts
        · exact .none
      have hlater := ih (fun us vs hts => hdeclaration (k :: us) vs (congrArg (k :: ·) hts))
        (k :: before) (f k :: before')
      rw [List.map_cons, all, all]
      generalize at? u before k ts = here at hat
      generalize at? u' before' (f k) (ts.map f) = here' at hat
      cases hat with
      | none => exact hlater
      | some hfinding => exact .cons hfinding hlater

/-- A finding and the same among moved tokens. -/
def Follows (t t' : Text) (f : Nat → Nat) : Finding → Finding → Prop
  | .declaration d, .declaration d' => d.Follows t t' f d'
  | .registration r, .registration r' =>
      r'.schemaName = r.schemaName ∧ r'.displayName = r.displayName
  | .warning _, .warning _ => True
  | _, _ => False

section

variable {t t' : Text} {f : Nat → Nat} {us ts : List PlacedToken}

theorem ofModel_follows (u u' : SourceUnit) (before before' : List PlacedToken) (word : Span)
    (ts : List PlacedToken) :
    Option.Rel (Follows t t' f) (ofModel u before word ts)
      (ofModel u' before' (word.moved f) (ts.map (·.moved f))) := by
  unfold ofModel
  rw [Shape.call?_moved]
  cases Shape.call? ts with
  | none => exact .none
  | some c =>
      have hbehind : (c.moved f).behind = c.behind.map (·.moved f) := rfl
      simp only [Option.map_some, hbehind, Shape.schemaArgument?_moved]
      cases Shape.schemaArgument? c.behind with
      | none => exact .some trivial
      | some a => exact .some ⟨rfl, rfl⟩

variable (hf : ∀ {m n}, m ≤ n → f m ≤ f n)
include hf

theorem ofDeclaration_follows {unit : Option String}
    (htokens : significant (tokenize t) = us ++ ts) :
    Option.Rel (Follows t t' f) (ofDeclaration (.alone unit t) ts)
      (ofDeclaration (.alone unit t') (ts.map (·.moved f))) := by
  unfold ofDeclaration
  rw [Shape.header?_moved]
  cases hheader : Shape.header? ts with
  | none => exact .none
  | some h =>
      have hbehind : (h.moved f).behind = h.behind.map (·.moved f) := rfl
      simp only [Option.map_some, hbehind, Shape.closeBraces_moved]
      cases hclose : Shape.closeBraces 0 h.behind with
      | none => exact .some trivial
      | some b =>
          obtain ⟨inside, closing, after⟩ := b
          obtain ⟨n, front, opening, hts, -, hopening, hbrace⟩ := Shape.header?_spec hheader
          obtain ⟨hinside, hclosing, -⟩ := Shape.closeBraces_spec hclose
          refine .some ⟨rfl, us ++ n :: front, opening, inside, closing, after, ?_, hopening,
            hclosing, ?_, ?_, ?_⟩
          · rw [htokens, hts, hinside, List.append_assoc]
            rfl
          · rw [hbrace]
            rfl
          · rw [hbrace]
            rfl
          · have hstop : (h.moved f).brace.stop = f h.brace.stop :=
              Nat.max_eq_left (hf h.brace.start_le_stop)
            rw [hbrace]
            show t'.slice (h.moved f).brace.stop (f closing.span.start) = _
            rw [hstop]

theorem all_follows {unit : Option String} (htokens : significant (tokenize t) = us ++ ts)
    (before before' : List PlacedToken) :
    List.Forall₂ (Follows t t' f) (all (.alone unit t) before ts)
      (all (.alone unit t') before' (ts.map (·.moved f))) := by
  refine all_related (PlacedToken.token_moved f) ?_ ?_ before before'
  · intro vs ws hts
    have hsplit : significant (tokenize t) = (us ++ vs) ++ ws := by
      rw [htokens, hts, List.append_assoc]
    exact ofDeclaration_follows hf hsplit
  · exact fun before before' k ws => ofModel_follows _ _ before before' k.span ws

end

end Finding

namespace UnitScan

variable {t t' : Text} {f : Nat → Nat} (hf : ∀ {m n}, m ≤ n → f m ≤ f n)
  (h : significant (tokenize t') = (significant (tokenize t)).map (·.moved f))
include hf h

theorem findings_follow (unit : Option String) :
    List.Forall₂ (Finding.Follows t t' f)
      (Finding.all (.alone unit t) [] (significant (tokenize t)))
      (Finding.all (.alone unit t') [] (significant (tokenize t'))) := by
  rw [h]
  exact Finding.all_follows hf (List.nil_append _).symm [] []

/-- The declarations of a text whose tokens have moved. -/
theorem declarations_follow (unit : Option String) :
    List.Forall₂ (Declaration.Follows t t' f) (of unit t).declarations
      (of unit t').declarations := by
  refine List.rel_filterMap ?_ (findings_follow hf h unit)
  intro x y hxy
  cases x <;> cases y <;> first | exact .none | exact .some hxy | exact hxy.elim

/-- The registrations of a text whose tokens have moved. -/
theorem registrations_follow (unit : Option String) :
    List.Forall₂ (fun r r' : Registration =>
        r'.schemaName = r.schemaName ∧ r'.displayName = r.displayName)
      (of unit t).registrations (of unit t').registrations := by
  refine List.rel_filterMap ?_ (findings_follow hf h unit)
  intro x y hxy
  cases x <;> cases y <;> first | exact .none | exact .some hxy | exact hxy.elim

end UnitScan

end SchemaAtlas
