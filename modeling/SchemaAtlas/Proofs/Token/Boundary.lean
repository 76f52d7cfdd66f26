/-
Token boundaries. A text may be cut wherever one of its tokens ends: the
front is read as it was, and so is the rest, by a lexer that has been
told whether a regular expression may begin there. That is all it has to
be told, and the last token in front of the cut that is no trivia says
it. The rules that look ahead without bound (literals, comments, regular
expressions and their classes) are settled one by one in
`SchemaAtlas.Proofs.Token.Locality`; here the cut is given by a byte.

- `IsTokenBoundary`: the bytes at which a text may be cut.
- `regexBehind_eq`: what the tokens in front of a cut leave behind.
- `tokenize_cut`: both parts of a text cut at a boundary.
-/
import Mathlib.Data.List.Induction
import SchemaAtlas.Proofs.Token.Position
import SchemaAtlas.Proofs.Token.Trim

namespace SchemaAtlas

-- ==================================================== vocabulary

/-- Byte `n` does not fall inside a token: the text begins or ends
there, or one of its tokens does. -/
def IsTokenBoundary (t : Text) (n : Nat) : Prop :=
  n = 0 ∨ n = t.width ∨ ∃ x ∈ tokenize t, x.span.start = n ∨ x.span.stop = n

instance (t : Text) (n : Nat) : Decidable (IsTokenBoundary t n) :=
  inferInstanceAs (Decidable (_ ∨ _ ∨ _))

/-- The tokens of the text that end at byte `n` or in front of it. -/
def tokensBefore (t : Text) (n : Nat) : List PlacedToken :=
  (tokenize t).filter fun x => x.span.stop ≤ n

/-- The tokens of the text that begin at byte `n` or behind it. -/
def tokensBehind (t : Text) (n : Nat) : List PlacedToken :=
  (tokenize t).filter fun x => n ≤ x.span.start

/-- Whether a slash behind the tokens may open a regular expression: the
last of them that is no trivia says so, and if there is none it may. -/
def admitsRegex (ts : List PlacedToken) : Bool :=
  match (significant ts).getLast? with
  | some x => x.token.allowsRegex
  | none => true

-- ==================================================== what is left behind

/-- Of the tokens in front, the lexer keeps no more than the last one
that is no trivia. -/
theorem regexBehind_eq (ts : List PlacedToken) : regexBehind true ts = admitsRegex ts := by
  induction ts using List.reverseRecOn with
  | nil => rfl
  | append_singleton ts x ih =>
      have hstep : regexBehind true (ts ++ [x]) = x.token.regexAfter (regexBehind true ts) := by
        rw [regexBehind, List.foldl_append]
        rfl
      have hlast : significant (ts ++ [x]) = significant ts ++ significant [x] :=
        significant_append ts [x]
      rw [hstep, ih, Token.regexAfter, admitsRegex, admitsRegex, hlast]
      cases hx : x.token.isTrivia with
      | true =>
          have hnone : significant [x] = [] := significant_trivia hx []
          rw [if_pos rfl, hnone, List.append_nil]
      | false =>
          have hone : significant [x] = [x] := by
            rw [significant_cons, hx]
            rfl
          rw [if_neg Bool.false_ne_true, hone, List.getLast?_concat]

-- ==================================================== cutting

section

variable {t : Text} {n : Nat} {us vs : List PlacedToken}

/-- At a boundary the tokens divide into those in front and those that
begin there. -/
theorem IsTokenBoundary.exists_append (h : IsTokenBoundary t n) :
    ∃ us vs, tokenize t = us ++ vs ∧ startOf t.width vs = n := by
  have hwhole := startOf_tokensFrom true 0 t
  rw [Nat.zero_add] at hwhole
  rcases h with rfl | rfl | ⟨x, hx, hplace⟩
  · exact ⟨[], tokenize t, rfl, hwhole⟩
  · exact ⟨tokenize t, [], (List.append_nil _).symm, rfl⟩
  · obtain ⟨us, vs, hus⟩ := List.append_of_mem hx
    rcases hplace with hstart | hstop
    · exact ⟨us, x :: vs, hus, hstart⟩
    · refine ⟨us ++ [x], vs, by rw [hus, List.append_assoc]; rfl, ?_⟩
      have hbetween : tokenize t = us ++ x :: ([] ++ vs) := hus
      obtain ⟨p, q, r, -, hp, hnone, hvs⟩ := tokensFrom_between hbetween
      rw [tokensFrom_eq_nil.1 hnone, Text.width_nil, ← hp, Nat.zero_add] at hvs
      exact hvs.trans hstop

/-- Tokens that divide at byte `n` divide the text there. -/
theorem cut_of_append (h : tokenize t = us ++ vs) (hn : startOf t.width vs = n) :
    (t.cut n).1.width = n ∧ tokenize (t.cut n).1 = us
      ∧ tokensFrom (regexBehind true us) n (t.cut n).2 = vs := by
  obtain ⟨p, q, rfl, hp, hq⟩ := tokensFrom_eq_append h
  rw [Nat.zero_add] at hq
  have hstart := startOf_tokensFrom (regexBehind true us) p.width q
  rw [hq, ← Text.width_append, hn] at hstart
  rw [hstart, Text.cut_width_append]
  exact ⟨rfl, hp, hq⟩

/-- Tokens that divide at byte `n` are those in front of it and those
behind it. -/
theorem tokens_of_append (h : tokenize t = us ++ vs) (hn : startOf t.width vs = n) :
    tokensBefore t n = us ∧ tokensBehind t n = vs := by
  obtain ⟨hwidth, hfront, hrest⟩ := cut_of_append h hn
  have hbefore : ∀ x ∈ us, x.span.start < n ∧ x.span.stop ≤ n := by
    intro x hx
    have hbounds := bounds_of_mem_tokensFrom (show x ∈ tokensFrom true 0 _ from hfront ▸ hx)
    omega
  have hbehind : ∀ x ∈ vs, n ≤ x.span.start ∧ n < x.span.stop := by
    intro x hx
    have hbounds := bounds_of_mem_tokensFrom (hrest ▸ hx)
    omega
  constructor
  · have hall : us.filter (fun x => x.span.stop ≤ n) = us :=
      List.filter_eq_self.2 fun x hx => decide_eq_true (hbefore x hx).2
    have hnone : vs.filter (fun x => x.span.stop ≤ n) = [] :=
      List.filter_eq_nil_iff.2 fun x hx => by simpa using (hbehind x hx).2
    rw [tokensBefore, h, List.filter_append, hall, hnone, List.append_nil]
  · have hnone : us.filter (fun x => n ≤ x.span.start) = [] :=
      List.filter_eq_nil_iff.2 fun x hx => by simpa using (hbefore x hx).1
    have hall : vs.filter (fun x => n ≤ x.span.start) = vs :=
      List.filter_eq_self.2 fun x hx => decide_eq_true (hbehind x hx).1
    rw [tokensBehind, h, List.filter_append, hnone, hall, List.nil_append]

/-- A text cut at a token boundary: the front has the tokens in front of
the cut, and the rest, read on from what the last of these that is no
trivia admits, has the tokens behind it, moved to the front. -/
theorem tokenize_cut (h : IsTokenBoundary t n) :
    (t.cut n).1.width = n
      ∧ tokenize (t.cut n).1 = tokensBefore t n
      ∧ (tokensFrom (admitsRegex (tokensBefore t n)) 0 (t.cut n).2).map (·.shift n) =
          tokensBehind t n
      ∧ tokensBefore t n ++ tokensBehind t n = tokenize t := by
  obtain ⟨us, vs, hsplit, hn⟩ := h.exists_append
  obtain ⟨hwidth, hfront, hrest⟩ := cut_of_append hsplit hn
  obtain ⟨hbefore, hbehind⟩ := tokens_of_append hsplit hn
  rw [hbefore, hbehind]
  refine ⟨hwidth, hfront, ?_, hsplit.symm⟩
  rw [← regexBehind_eq, ← tokensFrom_shift, Nat.zero_add]
  exact hrest

end

/-- Behind `v` and a comment no regular expression begins, although one
could if the rest of the text stood alone. -/
theorem tokenize_cut_division :
    IsTokenBoundary "v /* = */ / w / x".toList 10
      ∧ tokenize "v /* = */ ".toList = tokensBefore "v /* = */ / w / x".toList 10
      ∧ (tokensFrom false 0 "/ w / x".toList).map (·.shift 10) =
          tokensBehind "v /* = */ / w / x".toList 10
      ∧ tokensFrom false 0 "/ w / x".toList ≠ tokenize "/ w / x".toList := by
  have hboundary : IsTokenBoundary "v /* = */ / w / x".toList 10 := by decide +kernel
  obtain ⟨-, hfront, hrest, -⟩ := tokenize_cut hboundary
  have hnone : admitsRegex (tokensBefore "v /* = */ / w / x".toList 10) = false := by
    decide +kernel
  rw [hnone] at hrest
  exact ⟨hboundary, hfront, hrest, by decide +kernel⟩

end SchemaAtlas
