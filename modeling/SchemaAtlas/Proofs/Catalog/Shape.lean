/-
What the matchers of shapes take. Each of them reads from the front of
a token list and returns what is left, so what it returns is a suffix;
a header gives its name and its brace as two of the tokens it reads;
and the tokens in front of a closing brace are those in which braces
match.

- `header?_spec`: the tokens of a declaration's head.
- `closeBraces_spec`, `BracesClose.of_significant`: the tokens of a body.
- `exists_of_mem_all`: a finding stands at one of the tokens.
-/
import SchemaAtlas.Catalog.Scan

namespace SchemaAtlas

-- ==================================================== matching braces

/-- The tokens close as many braces as they open and `depth` more, and
no front part of them closes more than that. -/
def BracesClose (depth : Nat) (ts : List PlacedToken) : Prop :=
  (∀ us, us <+: ts →
      us.countP (·.isMark .rightBrace) ≤ us.countP (·.isMark .leftBrace) + depth)
    ∧ ts.countP (·.isMark .rightBrace) = ts.countP (·.isMark .leftBrace) + depth

namespace BracesClose

variable {depth : Nat} {t : PlacedToken} {ts : List PlacedToken}

theorem nil : BracesClose 0 [] := by
  refine ⟨fun us h => ?_, rfl⟩
  rw [List.prefix_nil.1 h]
  exact Nat.le_refl 0

/-- A token in front changes the braces left to close. -/
theorem cons {depth' : Nat} (h : BracesClose depth' ts)
    (ht : (if t.isMark .rightBrace then 1 else 0) + depth' =
      (if t.isMark .leftBrace then 1 else 0) + depth) :
    BracesClose depth (t :: ts) := by
  constructor
  · intro us hus
    rcases List.prefix_cons_iff.1 hus with rfl | ⟨vs, rfl, hvs⟩
    · exact Nat.zero_le _
    · have hcount := h.1 vs hvs
      rw [List.countP_cons, List.countP_cons]
      omega
  · have hcount := h.2
    rw [List.countP_cons, List.countP_cons]
    omega

/-- Comments and white space are no braces. -/
theorem of_significant (h : BracesClose depth (significant ts)) : BracesClose depth ts := by
  have hcount : ∀ m us, (significant us).countP (·.isMark m) = us.countP (·.isMark m) := by
    intro m us
    rw [significant, List.countP_filter]
    congr 1
    funext t
    cases hm : t.isMark m with
    | false => rfl
    | true =>
        have ht : t.token = .mark m := of_decide_eq_true hm
        rw [ht]
        rfl
  constructor
  · intro us hus
    have hfront := h.1 (significant us) (hus.filter _)
    rwa [hcount, hcount] at hfront
  · have hall := h.2
    rwa [hcount, hcount] at hall

end BracesClose

namespace Shape

variable {depth : Nat} {t closing : PlacedToken} {ts us rest : List PlacedToken}

theorem closeBraces_opening (ht : t.token = .mark .leftBrace) :
    closeBraces depth (t :: ts) = (closeBraces (depth + 1) ts).map fun b => (t :: b.1, b.2) := by
  obtain ⟨token, span⟩ := t
  obtain rfl : token = .mark .leftBrace := ht
  rfl

theorem closeBraces_closing (ht : t.token = .mark .rightBrace) :
    closeBraces (depth + 1) (t :: ts) =
      (closeBraces depth ts).map fun b => (t :: b.1, b.2) := by
  obtain ⟨token, span⟩ := t
  obtain rfl : token = .mark .rightBrace := ht
  rfl

theorem closeBraces_other (hl : t.token ≠ .mark .leftBrace) (hr : t.token ≠ .mark .rightBrace) :
    closeBraces depth (t :: ts) = (closeBraces depth ts).map fun b => (t :: b.1, b.2) := by
  rw [closeBraces.eq_def]
  -- the two brace cases of the match are ruled out by `hl` and `hr`
  simp only

theorem eq_some_of_map_cons
    {o : Option (List PlacedToken × PlacedToken × List PlacedToken)}
    (h : (o.map fun b => (t :: b.1, b.2)) = some (us, closing, rest)) :
    ∃ vs, us = t :: vs ∧ o = some (vs, closing, rest) := by
  obtain ⟨⟨vs, _, _⟩, ho, heq⟩ := Option.map_eq_some_iff.1 h
  cases heq
  exact ⟨vs, rfl, ho⟩

/-- The tokens in front of a closing brace are those in which every
brace but the enclosing ones is matched. -/
theorem closeBraces_spec (h : closeBraces depth ts = some (us, closing, rest)) :
    ts = us ++ closing :: rest ∧ closing.token = .mark .rightBrace ∧ BracesClose depth us := by
  fun_induction closeBraces depth ts generalizing us with
  | case1 => cases h
  | case2 t ts ht =>
      obtain ⟨rfl, rfl, rfl⟩ : us = [] ∧ t = closing ∧ ts = rest := by simpa using h
      exact ⟨rfl, ht, .nil⟩
  | case3 t ts ht depth ih =>
      obtain ⟨vs, rfl, hvs⟩ := eq_some_of_map_cons h
      obtain ⟨rfl, hclosing, hclose⟩ := ih hvs
      refine ⟨rfl, hclosing, hclose.cons ?_⟩
      simp [PlacedToken.isMark, ht]
      omega
  | case4 depth t ts ht ih =>
      obtain ⟨vs, rfl, hvs⟩ := eq_some_of_map_cons h
      obtain ⟨rfl, hclosing, hclose⟩ := ih hvs
      refine ⟨rfl, hclosing, hclose.cons ?_⟩
      simp [PlacedToken.isMark, ht]
      omega
  | case5 depth t ts hr hl ih =>
      obtain ⟨vs, rfl, hvs⟩ := eq_some_of_map_cons h
      obtain ⟨rfl, hclosing, hclose⟩ := ih hvs
      refine ⟨rfl, hclosing, hclose.cons ?_⟩
      have hr' : t.isMark .rightBrace = false := decide_eq_false hr
      have hl' : t.isMark .leftBrace = false := decide_eq_false hl
      rw [hr', hl']

-- ==================================================== heads

theorem dottedPath_suffix {name : String} (h : dottedPath ts = some (name, rest)) :
    rest <:+ ts := by
  fun_induction dottedPath ts with
  | case1 => cases h
  | case2 t _ _ d ts _ path hpath ih =>
      exact (ih (hpath.trans h)).trans ((List.suffix_cons d ts).trans (List.suffix_cons t _))
  | case3 t _ _ d ts _ _ _ =>
      cases h
      exact List.suffix_cons t _
  | case4 t _ _ d ts _ =>
      cases h
      exact List.suffix_cons t _
  | case5 t _ _ =>
      cases h
      exact List.nil_suffix
  | case6 t ts _ => cases h

theorem closeAngles_suffix (h : closeAngles depth ts = some rest) : rest <:+ ts := by
  fun_induction closeAngles depth ts with
  | case1 => cases h
  | case2 depth t ts _ ih => exact (ih h).trans (List.suffix_cons t ts)
  | case3 t ts _ =>
      cases h
      exact List.suffix_cons t _
  | case4 t ts _ depth ih => exact (ih h).trans (List.suffix_cons t ts)
  | case5 => cases h
  | case6 => cases h
  | case7 depth t ts _ _ _ _ ih => exact (ih h).trans (List.suffix_cons t ts)

theorem skipTypeArguments_suffix (h : skipTypeArguments ts = some rest) : rest <:+ ts := by
  cases ts with
  | nil => cases h; exact List.suffix_rfl
  | cons t ts =>
      rw [skipTypeArguments] at h
      split at h
      · exact (closeAngles_suffix h).trans (List.suffix_cons t ts)
      · cases h
        exact List.suffix_rfl

theorem skipNew_suffix (ts : List PlacedToken) : skipNew ts <:+ ts := by
  cases ts with
  | nil => exact List.suffix_rfl
  | cons t ts =>
      rw [skipNew]
      split
      · exact List.suffix_cons t ts
      · exact List.suffix_rfl

/-- What the tokens of a head are, up to what each matcher leaves. -/
theorem header?_cases {hd : Header} (h : header? ts = some hd) :
    ∃ n e name us path p b behind, ts = n :: e :: us ∧ n.token = .identifier name
      ∧ e.isMark .equals = true ∧ dottedPath (skipNew us) = some ("Schema", path)
      ∧ skipTypeArguments path = some (p :: b :: behind) ∧ p.isMark .leftParen = true
      ∧ b.isMark .leftBrace = true ∧ hd = ⟨name, n.span, b.span, behind⟩ := by
  unfold header? at h
  split at h
  · next n e us =>
      split at h
      · next name hn =>
          split at h
          · next he =>
              split at h
              · next path hpath =>
                  split at h
                  · next p b behind harguments =>
                      split at h
                      · next hmarks =>
                          cases h
                          obtain ⟨hp, hb⟩ := Bool.and_eq_true_iff.1 hmarks
                          exact ⟨n, e, name, us, path, p, b, behind, rfl, hn, he, hpath,
                            harguments, hp, hb, rfl⟩
                      · cases h
                  · cases h
              · cases h
          · cases h
      · cases h
  · cases h

/-- A head begins with its name and ends with its brace. -/
theorem header?_spec {hd : Header} (h : header? ts = some hd) :
    ∃ n before b, ts = n :: (before ++ b :: hd.behind) ∧ n.span = hd.nameSpan
      ∧ b.token = .mark .leftBrace ∧ b.span = hd.brace := by
  obtain ⟨n, e, name, us, path, p, b, behind, rfl, -, -, hpath, harguments, -, hb, rfl⟩ :=
    header?_cases h
  -- the matchers in between leave suffixes
  have hbehind : p :: b :: behind <:+ e :: us :=
    (skipTypeArguments_suffix harguments).trans
      ((dottedPath_suffix hpath).trans
        ((skipNew_suffix us).trans (List.suffix_cons e us)))
  obtain ⟨before, hbefore⟩ := hbehind
  refine ⟨n, before ++ [p], b, ?_, rfl, of_decide_eq_true hb, rfl⟩
  rw [← hbefore, List.append_assoc]
  rfl

end Shape

-- ==================================================== findings

namespace Finding

variable {u : SourceUnit}

/-- A finding stands at one of the tokens. -/
theorem exists_of_mem_all {before ts : List PlacedToken} {f : Finding}
    (h : f ∈ all u before ts) :
    ∃ us t vs, ts = us ++ t :: vs ∧ at? u (us.reverse ++ before) t vs = some f := by
  induction ts generalizing before with
  | nil => cases h
  | cons t ts ih =>
      have hlater : f ∈ all u (t :: before) ts →
          ∃ us x vs, t :: ts = us ++ x :: vs ∧
            at? u (us.reverse ++ before) x vs = some f := by
        intro hf
        obtain ⟨us, x, vs, rfl, hx⟩ := ih hf
        refine ⟨t :: us, x, vs, rfl, ?_⟩
        rwa [List.reverse_cons, List.append_assoc]
      rw [all] at h
      split at h
      · next g hg =>
          rcases List.mem_cons.1 h with rfl | h
          · exact ⟨[], t, ts, rfl, hg⟩
          · exact hlater h
      · exact hlater h

/-- A declaration as the tokens behind its keyword give it. -/
theorem declaration_of_at? {before ts : List PlacedToken} {t : PlacedToken} {d : Declaration}
    (h : at? u before t ts = some (.declaration d)) :
    ofDeclaration u ts = some (.declaration d) := by
  unfold at? at h
  split at h
  · split at h
    · exact h
    · cases h
  · unfold ofModel at h
    split at h
    · cases h
    · split at h <;> cases h
  · cases h

/-- The name, the braces and the body of a declaration. -/
theorem ofDeclaration_spec {ts : List PlacedToken} {d : Declaration}
    (h : ofDeclaration u ts = some (.declaration d)) :
    ∃ n before b inside closing after,
      ts = n :: (before ++ b :: (inside ++ closing :: after))
      ∧ b.token = .mark .leftBrace ∧ closing.token = .mark .rightBrace ∧ BracesClose 0 inside
      ∧ d.span = u.global n.span ∧ d.bodyStart = b.span.stop + u.start ∧ d.unit = u.name
      ∧ d.body = u.text.slice b.span.stop closing.span.start := by
  unfold ofDeclaration at h
  split at h
  · cases h
  · next hd hheader =>
      split at h
      · cases h
      · next inside closing after hclose =>
          cases h
          obtain ⟨n, before, b, rfl, hn, hb, hbrace⟩ := Shape.header?_spec hheader
          obtain ⟨hbehind, hclosing, hmatch⟩ := Shape.closeBraces_spec hclose
          refine ⟨n, before, b, inside, closing, after, by rw [hbehind], hb, hclosing, hmatch,
            congrArg u.global hn.symm, ?_, rfl, ?_⟩
          · rw [hbrace]
          · rw [hbrace]

end Finding

end SchemaAtlas
