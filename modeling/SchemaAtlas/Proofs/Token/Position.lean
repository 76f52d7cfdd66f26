/-
Where tokens stand. The tokens of a text cover it from its first byte
to its last, one behind the other and none of them empty; so the bytes
between two of its tokens are the text of the tokens in between.

- `startOf_tokensFrom`, `pairwise_tokensFrom`: tokens lie end to end.
- `tokensFrom_between`: what lies between a token and a later one.
- `tokenize_slice`: the same, read from a text by its spans.
- `tokenize_append`: a text is read in two parts where a token begins.
-/
import SchemaAtlas.Proofs.Token.Locality

namespace SchemaAtlas

/-- The byte at which the tokens begin, `stop` when there are none. -/
def startOf (stop : Nat) : List PlacedToken → Nat
  | [] => stop
  | t :: _ => t.span.start

-- ==================================================== end to end

section

variable {b : Bool} {start : Nat} {t : Text}

theorem width_lexeme_pos (b : Bool) (c : Char) (r : Text) : 0 < (munch b c r).lexeme.width := by
  apply Nat.pos_of_ne_zero
  rw [ne_eq, Text.width_eq_zero]
  exact munch_lexeme_ne_nil b c r

theorem tokensFrom_eq_nil : tokensFrom b start t = [] ↔ t = [] := by
  constructor
  · intro h
    cases t with
    | nil => rfl
    | cons c r => rw [tokensFrom] at h; cases h
  · rintro rfl
    rw [tokensFrom]

/-- The first token begins where the text does. -/
theorem startOf_tokensFrom (b : Bool) (start : Nat) (t : Text) :
    startOf (start + t.width) (tokensFrom b start t) = start := by
  cases t with
  | nil => rw [tokensFrom]; rfl
  | cons c r => rw [tokensFrom]; rfl

/-- A single token covers its text. -/
theorem span_of_tokensFrom {x : PlacedToken} (h : tokensFrom b start t = [x]) :
    x.span = Span.of start (start + t.width) := by
  cases t with
  | nil => rw [tokensFrom] at h; cases h
  | cons c r =>
      rw [tokensFrom] at h
      obtain ⟨rfl, hlater⟩ := List.cons.inj h
      have hrest := tokensFrom_eq_nil.1 hlater
      have happend := munch_append b c r
      rw [hrest, List.append_nil] at happend
      rw [happend]

/-- A token lies inside the bytes of the text and is not empty. -/
theorem bounds_of_mem_tokensFrom {x : PlacedToken} (h : x ∈ tokensFrom b start t) :
    start ≤ x.span.start ∧ x.span.start < x.span.stop ∧ x.span.stop ≤ start + t.width := by
  fun_induction tokensFrom b start t with
  | case1 => cases h
  | case2 b start c r m ih =>
      have hpos : 0 < m.lexeme.width := width_lexeme_pos b c r
      have hwidth : m.lexeme.width + m.rest.width = Text.width (c :: r) := by
        rw [← Text.width_append, munch_append]
      rcases List.mem_cons.1 h with rfl | h
      · rw [Span.start_of, Span.stop_of]
        omega
      · have hlater := ih h
        omega

/-- Tokens stand one behind the other. -/
theorem pairwise_tokensFrom (b : Bool) (start : Nat) (t : Text) :
    (tokensFrom b start t).Pairwise fun x y => x.span.stop ≤ y.span.start := by
  fun_induction tokensFrom b start t with
  | case1 => exact List.Pairwise.nil
  | case2 b start c r m ih =>
      refine List.Pairwise.cons ?_ ih
      intro y hy
      have hbounds := bounds_of_mem_tokensFrom hy
      rw [Span.stop_of]
      omega

end

-- ==================================================== between tokens

/-- The tokens `vs` between the token `x` and the tokens `ws` are those
of the text that lies between them. -/
theorem tokensFrom_between {b : Bool} {start : Nat} {t : Text} {us vs ws : List PlacedToken}
    {x : PlacedToken} (h : tokensFrom b start t = us ++ x :: (vs ++ ws)) :
    ∃ p q r, t = p ++ q ++ r ∧ x.span.stop = start + p.width
      ∧ tokensFrom (x.token.regexAfter (regexBehind b us)) (start + p.width) q = vs
      ∧ startOf (start + t.width) ws = start + p.width + q.width := by
  obtain ⟨p, t', rfl, hp, ht'⟩ := tokensFrom_eq_append h
  obtain ⟨l, t'', rfl, hl, ht''⟩ := tokensFrom_eq_append (List.singleton_append ▸ ht')
  obtain ⟨q, r, rfl, hq, hr⟩ := tokensFrom_eq_append ht''
  have hspan := span_of_tokensFrom hl
  have hstart := startOf_tokensFrom (regexBehind (regexBehind (regexBehind b us) [x]) vs)
    (start + p.width + l.width + q.width) r
  refine ⟨p ++ l, q, r, by simp, ?_, ?_, ?_⟩
  · rw [hspan, Span.stop_of, Text.width_append]
    omega
  · rw [Text.width_append, ← Nat.add_assoc]
    exact hq
  · rw [hr] at hstart
    simp only [Text.width_append, ← Nat.add_assoc] at hstart ⊢
    exact hstart

/-- A token ends before the tokens behind it begin. -/
theorem stop_le_startOf {b : Bool} {start : Nat} {t : Text} {us ws : List PlacedToken}
    {x : PlacedToken} (h : tokensFrom b start t = us ++ ws) (hx : x ∈ us) :
    x.span.stop ≤ startOf (start + t.width) ws := by
  cases ws with
  | nil =>
      apply (bounds_of_mem_tokensFrom (b := b) (t := t) ?_).2.2
      rw [h, List.append_nil]
      exact hx
  | cons y ws =>
      have hpairs := pairwise_tokensFrom b start t
      rw [h, List.pairwise_append] at hpairs
      exact hpairs.2.2 x hx y List.mem_cons_self

/-- In a whole text the spans give the text in between. -/
theorem tokenize_slice {t : Text} {us vs ws : List PlacedToken} {x : PlacedToken}
    (h : tokenize t = us ++ x :: (vs ++ ws)) :
    tokensFrom (x.token.regexAfter (regexBehind true us)) x.span.stop
        (t.slice x.span.stop (startOf t.width ws)) = vs
      ∧ x.span.stop + (t.slice x.span.stop (startOf t.width ws)).width = startOf t.width ws := by
  obtain ⟨p, q, r, rfl, hstop, hq, hstart⟩ := tokensFrom_between h
  rw [Nat.zero_add] at hstop hq hstart
  rw [Nat.zero_add] at hstart
  rw [hstop, hstart, Text.slice_append]
  exact ⟨hq, rfl⟩

-- ==================================================== parts

/-- Two ways to part a text at one byte are one way. -/
theorem Text.append_inj_width {p q p' q' : Text} (h : p ++ q = p' ++ q')
    (hwidth : p.width = p'.width) : p = p' ∧ q = q' := by
  have hcut := Text.cut_width_append p q
  rw [h, hwidth, Text.cut_width_append] at hcut
  exact ⟨(Prod.mk.inj hcut).1.symm, (Prod.mk.inj hcut).2.symm⟩

/-- If a token begins where the second part of a text does, both parts
are read on their own. -/
theorem tokenize_append {p q : Text} {us vs : List PlacedToken} {x : PlacedToken}
    (h : tokenize (p ++ q) = us ++ x :: vs) (hx : x.span.start = p.width) :
    us = tokenize p ∧ x :: vs = tokensFrom (regexBehind true (tokenize p)) p.width q := by
  obtain ⟨p', q', hparts, hp, hq⟩ := tokensFrom_eq_append h
  have hstart := startOf_tokensFrom (regexBehind true us) (0 + p'.width) q'
  rw [hq] at hstart
  have hwidth : p.width = p'.width := by
    rw [← hx, ← Nat.zero_add p'.width]
    exact hstart
  obtain ⟨rfl, rfl⟩ := Text.append_inj_width hparts hwidth
  rw [Nat.zero_add] at hq
  rw [← show tokenize p = us from hp] at hq ⊢
  exact ⟨rfl, hq.symm⟩

end SchemaAtlas
