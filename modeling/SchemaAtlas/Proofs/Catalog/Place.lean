/-
Where findings stand in their unit. A declaration, a registration or a
warning about one takes its spans from the tokens it was matched on, so
each span marks what those tokens were read from, and the body between
two braces is what stands between them.

- `Shape.header?_name`, `Shape.call?_suffix`: tokens that matchers name.
- `Finding.IsPlaced`, `Finding.isPlaced_of_mem`: every finding.
- `Shape.countBraces_eq`, `Shape.countAngles_eq`: counters of brackets.
-/
import SchemaAtlas.Proofs.Catalog.Order
import SchemaAtlas.Proofs.Token.Spelling

namespace SchemaAtlas

-- ==================================================== counters

namespace Shape

/-- The tokens up to the brace at which a counter of open braces, at `n`
in front of them, comes back to zero, that brace, and what follows;
`none` if the counter is counted down from zero. -/
def countBraces (n : Nat) :
    List PlacedToken → Option (Option (List PlacedToken × PlacedToken × List PlacedToken))
  | [] => some none
  | t :: ts =>
      let read := fun n => (countBraces n ts).map fun found =>
        found.map fun b => (t :: b.1, b.2)
      if t.isMark .leftBrace then read (n + 1)
      else if t.isMark .rightBrace then
        match n with
        | 0 => none
        | 1 => some (some ([], t, ts))
        | n + 2 => read (n + 1)
      else read n

/-- What follows the angle bracket at which a counter of open ones, at
`n` in front of the tokens, comes back to zero; `none` if the counter is
counted down from zero. -/
def countAngles (n : Nat) : List PlacedToken → Option (Option (List PlacedToken))
  | [] => some none
  | t :: ts =>
      if t.isMark .leftAngle then countAngles (n + 1) ts
      else if t.isMark .rightAngle then
        match n with
        | 0 => none
        | 1 => some (some ts)
        | n + 2 => countAngles (n + 1) ts
      else if t.isMark .semicolon || t.isMark .leftParen then some none
      else countAngles n ts

theorem countBraces_succ (depth : Nat) (ts : List PlacedToken) :
    countBraces (depth + 1) ts = some (closeBraces depth ts) := by
  fun_induction closeBraces depth ts with
  | case1 => rfl
  | case2 t ts ht => simp [countBraces, PlacedToken.isMark, ht]
  | case3 t ts ht depth ih => simp [countBraces, PlacedToken.isMark, ht, ih]
  | case4 depth t ts ht ih => simp [countBraces, PlacedToken.isMark, ht, ih]
  | case5 depth t ts hr hl ih =>
      have hr' : t.isMark .rightBrace = false := decide_eq_false hr
      have hl' : t.isMark .leftBrace = false := decide_eq_false hl
      simp [countBraces, hr', hl', ih]

/-- The counter that starts at an opening brace is never counted down
from zero, and finds what the matcher finds. -/
theorem countBraces_eq {b : PlacedToken} (hb : b.isMark .leftBrace = true)
    (ts : List PlacedToken) :
    countBraces 0 (b :: ts) = some ((closeBraces 0 ts).map fun c => (b :: c.1, c.2)) := by
  rw [countBraces, if_pos hb]
  dsimp only
  rw [countBraces_succ]
  rfl

theorem countAngles_succ (depth : Nat) (ts : List PlacedToken) :
    countAngles (depth + 1) ts = some (closeAngles depth ts) := by
  fun_induction closeAngles depth ts with
  | case1 => rfl
  | case2 depth t ts ht ih => simp [countAngles, PlacedToken.isMark, ht, ih]
  | case3 t ts ht => simp [countAngles, PlacedToken.isMark, ht]
  | case4 t ts ht depth ih => simp [countAngles, PlacedToken.isMark, ht, ih]
  | case5 depth t ts ht => simp [countAngles, PlacedToken.isMark, ht]
  | case6 depth t ts ht => simp [countAngles, PlacedToken.isMark, ht]
  | case7 depth t ts hl hr hs hp ih =>
      have hl' : t.isMark .leftAngle = false := decide_eq_false hl
      have hr' : t.isMark .rightAngle = false := decide_eq_false hr
      have hs' : t.isMark .semicolon = false := decide_eq_false hs
      have hp' : t.isMark .leftParen = false := decide_eq_false hp
      simp [countAngles, hl', hr', hs', hp', ih]

/-- The counter that starts at an opening angle bracket is never counted
down from zero, and finds what the matcher finds. -/
theorem countAngles_eq {a : PlacedToken} (ha : a.isMark .leftAngle = true)
    (ts : List PlacedToken) : countAngles 0 (a :: ts) = some (closeAngles 0 ts) := by
  rw [countAngles, if_pos ha, countAngles_succ]

-- ==================================================== matched tokens

variable {ts rest : List PlacedToken}

/-- The head of a declaration is named by its first token. -/
theorem header?_name {hd : Header} (h : header? ts = some hd) :
    ∃ n rest, ts = n :: rest ∧ n.token = .identifier hd.name ∧ n.span = hd.nameSpan := by
  obtain ⟨n, e, name, us, path, p, b, behind, rfl, hname, -, -, -, -, -, rfl⟩ := header?_cases h
  exact ⟨n, e :: us, rfl, hname, rfl⟩

/-- A call leaves a suffix of its tokens, in front of which its comma
stands. -/
theorem call?_suffix {c : Call} (h : call? ts = some c) :
    c.behind <:+ ts ∧ ∃ y ∈ ts, y.span = c.comma := by
  unfold call? at h
  split at h
  · next p s comma behind harguments =>
      split at h
      · obtain ⟨model, -, rfl⟩ := Option.map_eq_some_iff.1 h
        have hsuffix : p :: s :: comma :: behind <:+ ts := skipTypeArguments_suffix harguments
        have hbehind : behind <:+ p :: s :: comma :: behind := ⟨[p, s, comma], rfl⟩
        exact ⟨hbehind.trans hsuffix, comma, hsuffix.subset (by simp), rfl⟩
      · cases h
  · cases h

/-- A call ends with the token behind its comma, or else with the
comma. -/
theorem exists_last_of_call? {c : Call} (h : call? ts = some c) :
    ∃ y ∈ ts, (match c.behind with | t :: _ => t.span | [] => c.comma) = y.span := by
  obtain ⟨hbehind, comma, hcomma, hspan⟩ := call?_suffix h
  cases hnext : c.behind with
  | nil => exact ⟨comma, hcomma, hspan.symm⟩
  | cons t vs =>
      rw [hnext] at hbehind
      exact ⟨t, hbehind.subset List.mem_cons_self, rfl⟩

theorem schemaArgument?_spec {schema : String} {span : Span}
    (h : schemaArgument? ts = some (schema, span)) :
    ∃ s ∈ ts, s.token = .identifier schema ∧ s.span = span := by
  unfold schemaArgument? at h
  split at h
  · next s t ts =>
      split at h
      · obtain ⟨name, hname, heq⟩ := Option.map_eq_some_iff.1 h
        cases heq
        refine ⟨s, List.mem_cons_self, ?_, rfl⟩
        unfold Token.identifier? at hname
        split at hname
        · next hs =>
            cases hname
            exact hs
        · cases hname
      · cases h
  · cases h

end Shape

-- ==================================================== placed findings

/-- The declaration's span marks its identifier, and its body stands
between braces where the body begins. -/
structure Declaration.IsPlaced (t : Text) (d : Declaration) : Prop where
  name_marked : d.span.Marks t d.name.toList
  body_braced : ∃ p r, t = p ++ '{' :: (d.body ++ '}' :: r) ∧ d.bodyStart = Text.width p + 1

/-- The registration goes from the word `model` to the identifier of the
schema. -/
def Registration.IsPlaced (t : Text) (r : Registration) : Prop :=
  ∃ m, r.span.Marks t ("model".toList ++ m ++ r.schemaName.toList)

/-- What a unit shows by itself is shown where it stands: a literal from
its opening quote, an open comment to the end, an open body by its brace
and its identifier, a malformed registration from the word `model`. -/
def Warning.IsPlaced (t : Text) : Warning → Prop
  | .openString literal quote =>
      ∃ x ∈ tokenize t, ∃ content : String, x.token = .string content quote false
        ∧ literal = x.span ∧ literal.Marks t (quote :: content.toList)
  | .openComment comment =>
      comment.stop = t.width ∧ ∃ r, comment.Marks t ('/' :: '*' :: r)
  | .openBody name brace declared => brace.Marks t ['{'] ∧ declared.Marks t name.toList
  | .malformedRegistration _ call => ∃ m, call.Marks t ("model".toList ++ m)
  | _ => False

namespace Finding

/-- The finding stands where it says. -/
def IsPlaced (t : Text) : Finding → Prop
  | .declaration d => d.IsPlaced t
  | .registration r => r.IsPlaced t
  | .warning w => w.IsPlaced t

/-- A finding is a declaration or a model call. -/
theorem at?_cases {u : SourceUnit} {before ts : List PlacedToken} {t : PlacedToken}
    {f : Finding} (h : at? u before t ts = some f) :
    (∃ k, t.token = .keyword k ∧ k.bindsName = true ∧ ofDeclaration u ts = some f)
      ∨ t.token = .identifier "model" ∧ ofModel u before t.span ts = some f := by
  unfold at? at h
  split at h
  · next k hk =>
      split at h
      · next hbinds => exact Or.inl ⟨k, hk, hbinds, h⟩
      · cases h
  · next hmodel => exact Or.inr ⟨hmodel, h⟩
  · cases h

section

variable {t : Text} {us ts : List PlacedToken} {k : PlacedToken}
  (htokens : significant (tokenize t) = us ++ k :: ts)
include htokens

theorem marks_of_mem {x : PlacedToken} (hx : x ∈ ts) :
    ∃ l, x.span.Marks t l ∧ x.token.IsSpelled l := by
  have hmem : x ∈ significant (tokenize t) := by
    rw [htokens]
    exact List.mem_append_right us (List.mem_cons_of_mem k hx)
  exact exists_marks (List.mem_filter.1 hmem).1

theorem marks_head : ∃ l, k.span.Marks t l ∧ k.token.IsSpelled l := by
  have hmem : k ∈ significant (tokenize t) := by
    rw [htokens]
    exact List.mem_append_right us List.mem_cons_self
  exact exists_marks (List.mem_filter.1 hmem).1

theorem stop_le_start {x : PlacedToken} (hx : x ∈ ts) : k.span.stop ≤ x.span.start := by
  have hpairs := SourceUnit.pairwise_significant t
  rw [htokens, List.pairwise_append] at hpairs
  exact (List.pairwise_cons.1 hpairs.2.1).1 x hx

omit htokens in
/-- Between two braces stands what a slice gives. -/
theorem body_braced_of_marks {opening closing : Span} (ho : opening.Marks t ['{'])
    (hc : closing.Marks t ['}']) (hle : opening.stop ≤ closing.start) :
    ∃ p r, t = p ++ '{' :: (t.slice opening.stop closing.start ++ '}' :: r)
      ∧ opening.stop = Text.width p + 1 := by
  obtain ⟨p, m, r, ht, hstart, hstart'⟩ := ho.between hc hle
  have hstop : opening.stop = Text.width (p ++ ['{']) := by
    rw [ho.stop_eq, hstart, Text.width_append]
  have hslice : t.slice opening.stop closing.start = m := by
    rw [hstop, hstart', ht, Text.width_append (p ++ ['{']) m,
      List.append_assoc _ ['}'] r]
    exact Text.slice_append (p ++ ['{']) m (['}'] ++ r)
  rw [hslice]
  refine ⟨p, r, by rw [ht]; simp, ?_⟩
  rw [hstop, Text.width_append]
  rfl

theorem isPlaced_of_ofDeclaration {unit : Option String} {f : Finding}
    (h : ofDeclaration (.alone unit t) ts = some f) : f.IsPlaced t := by
  unfold ofDeclaration at h
  split at h
  · cases h
  · next hd hheader =>
      obtain ⟨n, rest, rfl, hname, hnspan⟩ := Shape.header?_name hheader
      obtain ⟨n', front, b, hts, -, hb, hbspan⟩ := Shape.header?_spec hheader
      have hbmem : b ∈ n :: rest := by rw [hts]; simp
      obtain ⟨l, hn, hnspelled⟩ := marks_of_mem htokens (List.mem_cons_self (a := n) (l := rest))
      rw [hname] at hnspelled
      rw [show l = _ from hnspelled, hnspan] at hn
      obtain ⟨l', hbmarks, hbspelled⟩ := marks_of_mem htokens hbmem
      rw [hb] at hbspelled
      rw [show l' = _ from hbspelled, hbspan] at hbmarks
      split at h
      · cases h
        exact ⟨hbmarks, hn⟩
      · next inside closing after hclose =>
          cases h
          obtain ⟨hbehind, hclosing, -⟩ := Shape.closeBraces_spec hclose
          have hclosingmem : closing ∈ hd.behind := by rw [hbehind]; simp
          have hsplit : significant (tokenize t) = (us ++ k :: n' :: front) ++ b :: hd.behind := by
            rw [htokens, hts, List.append_assoc]
            rfl
          have hle := stop_le_start hsplit hclosingmem
          obtain ⟨l'', hcmarks, hcspelled⟩ := marks_of_mem hsplit hclosingmem
          rw [hclosing] at hcspelled
          rw [show l'' = _ from hcspelled] at hcmarks
          rw [hbspan] at hle
          exact ⟨hn, body_braced_of_marks hbmarks hcmarks hle⟩

/-- What begins with the word `model` and ends with the token `y`. -/
theorem marks_model (hk : k.token = .identifier "model") {y : PlacedToken} (hy : y ∈ ts) :
    ∃ m l, (k.span.union y.span).Marks t ("model".toList ++ m ++ l) ∧ y.token.IsSpelled l := by
  obtain ⟨l, hl, hspelled⟩ := marks_head htokens
  rw [hk] at hspelled
  obtain ⟨l', hl', hspelled'⟩ := marks_of_mem htokens hy
  obtain ⟨m, hm⟩ := hl.union hl' (stop_le_start htokens hy)
  rw [show l = _ from hspelled] at hm
  exact ⟨m, l', hm, hspelled'⟩

theorem isPlaced_of_ofModel {unit : Option String} {before : List PlacedToken} {f : Finding}
    (hk : k.token = .identifier "model")
    (h : ofModel (.alone unit t) before k.span ts = some f) : f.IsPlaced t := by
  unfold ofModel at h
  split at h
  · cases h
  · next c hc =>
      obtain ⟨hbehind, comma, hcomma, hspan⟩ := Shape.call?_suffix hc
      split at h
      · next schema span hargument =>
          cases h
          obtain ⟨s, hs, hname, rfl⟩ := Shape.schemaArgument?_spec hargument
          obtain ⟨m, l, hmarks, hspelled⟩ := marks_model htokens hk (hbehind.subset hs)
          rw [hname] at hspelled
          rw [show l = _ from hspelled] at hmarks
          exact ⟨m, hmarks⟩
      · obtain ⟨y, hy, hlast⟩ := Shape.exists_last_of_call? hc
        have hf : f = .warning (.malformedRegistration c.model (k.span.union y.span)) := by
          rw [← hlast]
          exact (Option.some.inj h).symm
        rw [hf]
        obtain ⟨m, l, hmarks, -⟩ := marks_model htokens hk hy
        refine ⟨m ++ l, ?_⟩
        rw [← List.append_assoc]
        exact hmarks

end

/-- Every finding stands where it says. -/
theorem isPlaced_of_mem {t : Text} {unit : Option String} {f : Finding}
    (h : f ∈ all (.alone unit t) [] (significant (tokenize t))) : f.IsPlaced t := by
  obtain ⟨us, k, ts, htokens, hat⟩ := exists_of_mem_all h
  rcases at?_cases hat with ⟨-, -, -, hdeclaration⟩ | ⟨hk, hmodel⟩
  · exact isPlaced_of_ofDeclaration htokens hdeclaration
  · exact isPlaced_of_ofModel htokens hk hmodel

end Finding

end SchemaAtlas
