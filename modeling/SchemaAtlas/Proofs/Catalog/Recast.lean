/-
Tokens written otherwise. The matchers go by the kinds of the tokens and
by the names in them. Where the tokens stand, and what a closed literal
holds, they only hand on; so among tokens that differ in these alone they
find the same shapes, with the spans and the literals of those tokens.

- `Recast`: a change of spans and of the contents of literals.
- `Shape.header?_recast`, `Shape.closeBraces_recast`,
  `Shape.call?_recast`, `Shape.schemaArgument?_recast`: the matchers.
- `Finding.formAfter_recast`: the statement around a call.
-/
import SchemaAtlas.Proofs.Catalog.Shape

namespace SchemaAtlas

/-- A change of where tokens stand and of what closed literals hold. -/
structure Recast where
  span : Span → Span
  content : String → String

namespace Recast

/-- The token with the content of a closed literal changed. -/
def token (g : Recast) : Token → Token
  | .string content quote true => .string (g.content content) quote true
  | t => t

/-- The token changed, in its changed place. -/
def placed (g : Recast) (t : PlacedToken) : PlacedToken :=
  ⟨g.token t.token, g.span t.span⟩

-- ==================================================== tokens

variable (g : Recast)

/-- Tokens other than closed literals stay as they are. -/
theorem token_of_closedString? {t : Token} (h : t.closedString? = none) : g.token t = t := by
  cases t with
  | string content quote closed =>
      cases closed with
      | true => cases h
      | false => rfl
  | _ => rfl

theorem token_eq_iff {t u : Token} (hu : u.closedString? = none) : g.token t = u ↔ t = u := by
  cases ht : t.closedString? with
  | none => rw [g.token_of_closedString? ht]
  | some content =>
      have hne : ∀ v : Token, v.closedString?.isSome = true → v ≠ u := by
        rintro v hv rfl
        rw [hu] at hv
        cases hv
      have hchanged : (g.token t).closedString?.isSome = true := by
        cases t with
        | string content quote closed =>
            cases closed with
            | true => rfl
            | false => cases ht
        | _ => cases ht
      exact iff_of_false (hne _ hchanged) (hne t (by rw [ht]; rfl))

@[simp] theorem token_mark (m : Mark) : g.token (.mark m) = .mark m := rfl

@[simp] theorem token_keyword (k : Keyword) : g.token (.keyword k) = .keyword k := rfl

@[simp] theorem token_identifier (name : String) :
    g.token (.identifier name) = .identifier name := rfl

@[simp] theorem token_eq_mark {t : Token} {m : Mark} : g.token t = .mark m ↔ t = .mark m :=
  g.token_eq_iff rfl

@[simp] theorem token_eq_keyword {t : Token} {k : Keyword} :
    g.token t = .keyword k ↔ t = .keyword k :=
  g.token_eq_iff rfl

@[simp] theorem token_eq_identifier {t : Token} {name : String} :
    g.token t = .identifier name ↔ t = .identifier name :=
  g.token_eq_iff rfl

@[simp] theorem isMark_placed (t : PlacedToken) (m : Mark) :
    (g.placed t).isMark m = t.isMark m :=
  decide_eq_decide.2 g.token_eq_mark

@[simp] theorem identifier?_token (t : Token) : (g.token t).identifier? = t.identifier? := by
  cases t with
  | string content quote closed => cases closed <;> rfl
  | _ => rfl

@[simp] theorem closedString?_token (t : Token) :
    (g.token t).closedString? = t.closedString?.map g.content := by
  cases t with
  | string content quote closed => cases closed <;> rfl
  | _ => rfl

@[simp] theorem token_placed (t : PlacedToken) : (g.placed t).token = g.token t.token := rfl

@[simp] theorem span_placed (t : PlacedToken) : (g.placed t).span = g.span t.span := rfl

end Recast

namespace Shape

variable (g : Recast) (ts : List PlacedToken)

-- ==================================================== parts

theorem dottedPath_recast :
    dottedPath (ts.map g.placed) = (dottedPath ts).map fun p => (p.1, p.2.map g.placed) := by
  fun_induction dottedPath ts with
  | case1 => rfl
  | case2 t name hname d rest hdot path hpath ih => simp_all [dottedPath]
  | case3 t name hname d rest hdot hpath ih => simp_all [dottedPath]
  | case4 t name hname d rest hdot => simp_all [dottedPath]
  | case5 t name hname => simp_all [dottedPath]
  | case6 t ts hname =>
      rw [List.map_cons, dottedPath]
      split
      · next name hname' => exact absurd (g.token_eq_identifier.1 hname') (hname name)
      · rfl

theorem closeAngles_recast (depth : Nat) :
    closeAngles depth (ts.map g.placed) = (closeAngles depth ts).map (·.map g.placed) := by
  fun_induction closeAngles depth ts <;> simp_all [closeAngles]

theorem skipTypeArguments_recast :
    skipTypeArguments (ts.map g.placed) = (skipTypeArguments ts).map (·.map g.placed) := by
  cases ts with
  | nil => rfl
  | cons t ts =>
      rw [List.map_cons, skipTypeArguments, skipTypeArguments, g.isMark_placed,
        closeAngles_recast]
      split <;> rfl

theorem closeBraces_recast (depth : Nat) :
    closeBraces depth (ts.map g.placed) =
      (closeBraces depth ts).map fun b =>
        (b.1.map g.placed, g.placed b.2.1, b.2.2.map g.placed) := by
  fun_induction closeBraces depth ts with
  | case1 => rfl
  | case2 t ts ht => simp [closeBraces, ht]
  | case3 t ts ht depth ih => simp [closeBraces, ht, ih, Function.comp_def]
  | case4 depth t ts ht ih => simp [closeBraces, ht, ih, Function.comp_def]
  | case5 depth t ts hr hl ih =>
      have hr' : g.token t.token ≠ .mark .rightBrace := mt g.token_eq_mark.1 hr
      have hl' : g.token t.token ≠ .mark .leftBrace := mt g.token_eq_mark.1 hl
      simp [closeBraces, ih, Function.comp_def]

theorem skipNew_recast : skipNew (ts.map g.placed) = (skipNew ts).map g.placed := by
  cases ts with
  | nil => rfl
  | cons t ts =>
      rw [List.map_cons, skipNew, skipNew, g.token_placed]
      simp only [g.token_eq_keyword]
      split <;> rfl

-- ==================================================== heads

/-- The head among the changed tokens. -/
def Header.recast (h : Header) : Header :=
  ⟨h.name, g.span h.nameSpan, g.span h.brace, h.behind.map g.placed⟩

theorem header?_recast : header? (ts.map g.placed) = (header? ts).map (·.recast g) := by
  match ts with
  | [] => rfl
  | [n] => rfl
  | ⟨token, span⟩ :: e :: ts =>
      cases token with
      | identifier name =>
          show (if (g.placed e).isMark .equals = true then _ else _) =
            Option.map _ (if e.isMark .equals = true then _ else _)
          rw [g.isMark_placed, skipNew_recast, dottedPath_recast]
          by_cases he : e.isMark .equals = true
          · rw [if_pos he, if_pos he]
            cases dottedPath (skipNew ts) with
            | none => rfl
            | some p =>
                obtain ⟨path, rest⟩ := p
                by_cases hpath : path = "Schema"
                · subst hpath
                  simp only [Option.map_some, skipTypeArguments_recast]
                  cases skipTypeArguments rest with
                  | none => rfl
                  | some args =>
                      match args with
                      | [] => rfl
                      | [p] => rfl
                      | p :: b :: behind =>
                          simp only [Option.map_some, List.map_cons, g.isMark_placed]
                          by_cases hmarks : (p.isMark .leftParen && b.isMark .leftBrace) = true
                          · rw [if_pos hmarks, if_pos hmarks]
                            rfl
                          · rw [if_neg hmarks, if_neg hmarks]
                            rfl
                · simp [hpath]
          · rw [if_neg he, if_neg he]
            rfl
      | string content quote closed => cases closed <;> rfl
      | _ => rfl

/-- The head of a registration among the changed tokens. -/
def Call.recast (c : Call) : Call :=
  ⟨g.content c.model, g.span c.comma, c.behind.map g.placed⟩

theorem call?_recast : call? (ts.map g.placed) = (call? ts).map (·.recast g) := by
  unfold call?
  rw [skipTypeArguments_recast]
  cases skipTypeArguments ts with
  | none => rfl
  | some args =>
      match args with
      | [] => rfl
      | [p] => rfl
      | [p, s] => rfl
      | p :: s :: c :: behind =>
          simp only [Option.map_some, List.map_cons]
          rw [g.isMark_placed, g.isMark_placed, g.token_placed, g.closedString?_token]
          by_cases hmarks : (p.isMark .leftParen && c.isMark .comma) = true
          · rw [if_pos hmarks, if_pos hmarks, Option.map_map, Option.map_map]
            rfl
          · rw [if_neg hmarks, if_neg hmarks]
            rfl

theorem schemaArgument?_recast :
    schemaArgument? (ts.map g.placed) =
      (schemaArgument? ts).map fun a => (a.1, g.span a.2) := by
  match ts with
  | [] => rfl
  | [s] => rfl
  | s :: t :: ts =>
      rw [List.map_cons, List.map_cons, schemaArgument?, schemaArgument?,
        g.isMark_placed, g.isMark_placed, g.token_placed, g.identifier?_token]
      by_cases hmarks : (t.isMark .rightParen || t.isMark .comma) = true
      · rw [if_pos hmarks, if_pos hmarks, Option.map_map]
        rfl
      · rw [if_neg hmarks, if_neg hmarks]
        rfl

end Shape

/-- The statement around a call shows in the words before it. -/
theorem Finding.formAfter_recast (g : Recast) :
    ∀ before, formAfter (before.map g.placed) = formAfter before
  | [] => rfl
  | [_] => rfl
  | [t, u] => by simp [formAfter]
  | [t, u, v] => by simp [formAfter]
  | t :: u :: v :: w :: before => by
      have hreceiver := formAfter_recast g (v :: w :: before)
      simp only [List.map_cons] at hreceiver ⊢
      rw [formAfter, formAfter, hreceiver]
      simp only [g.isMark_placed, g.token_placed, g.identifier?_token, g.token_eq_keyword,
        g.token_eq_identifier]

end SchemaAtlas
