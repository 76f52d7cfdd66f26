/-
Texts with more behind them. A run of characters, a literal or a comment
that ends before a text does is read the same when the text goes on. What
is left open at the end of a text says how the text ends.

- `span_extend`: runs.
- `stringTail_extend`, `stringTail_open`: literals.
- `commentTail_extend`, `commentTail_closed`: block comments.
- `munch_open`: the tokens that can be left open.
-/
import SchemaAtlas.Proofs.Token.Lexeme
import SchemaAtlas.Proofs.Token.Locality

namespace SchemaAtlas

-- ==================================================== runs and literals

/-- A run of characters that ends in front of `w`, or could not go on
into it, is the same with `w` behind it. -/
theorem span_extend {f : Char → Bool} {r w : Text}
    (h : r.dropWhile f ≠ [] ∨ ∀ c ∈ w.head?, f c = false) :
    (r ++ w).takeWhile f = r.takeWhile f ∧ (r ++ w).dropWhile f = r.dropWhile f ++ w := by
  induction r with
  | nil =>
      rcases h with h | h
      · exact absurd rfl h
      · cases w with
        | nil => exact ⟨rfl, rfl⟩
        | cons c w => simp [h c rfl]
  | cons c r ih =>
      by_cases hc : f c = true
      · rw [List.dropWhile_cons, if_pos hc] at h
        obtain ⟨htake, hdrop⟩ := ih h
        simp [hc, htake, hdrop]
      · simp [hc]

theorem stringTail_open {quote : Char} {t : Text} (h : (stringTail quote t).2.1 = false) :
    (stringTail quote t).2.2 = [] ∨ (stringTail quote t).2.2 = ['\\']
      ∨ ∃ r, (stringTail quote t).2.2 = '\n' :: r := by
  induction t using stringTail.induct quote with
  | case1 => exact Or.inl rfl
  | case2 c r ih =>
      rw [stringTail] at h ⊢
      exact ih h
  | case3 r hesc =>
      rw [stringTail_cons hesc, if_pos rfl] at h
      cases h
  | case4 c r hesc hquote hstop =>
      rw [stringTail_cons hesc, if_neg hquote, if_pos hstop]
      simp only [Bool.or_eq_true, Bool.and_eq_true, decide_eq_true_eq] at hstop
      rcases hstop with rfl | ⟨rfl, -⟩
      · cases r with
        | nil => exact Or.inr (Or.inl rfl)
        | cons d s => exact (hesc d s rfl rfl).elim
      · exact Or.inr (Or.inr ⟨r, rfl⟩)
  | case5 c r hesc hquote hstop ih =>
      rw [stringTail_cons hesc, if_neg hquote, if_neg hstop] at h ⊢
      exact ih h

/-- A literal that is closed, or that a line break ends, is the same
whatever follows. -/
theorem stringTail_extend {quote : Char} (hquote : quote ≠ '\\') {t u p : Text} {closed : Bool}
    (h : stringTail quote t = (u, closed, p)) (hend : closed = false → ∃ r, p = '\n' :: r)
    (w : Text) : stringTail quote (t ++ w) = (u, closed, p ++ w) := by
  induction t using stringTail.induct quote generalizing u p with
  | case1 =>
      cases h
      obtain ⟨r, hr⟩ := hend rfl
      cases hr
  | case2 c r ih =>
      rw [stringTail] at h
      obtain ⟨rfl, hrest⟩ := Prod.mk.inj h
      rw [List.cons_append, List.cons_append, stringTail, ih (Prod.ext rfl hrest) hend]
  | case3 r hesc =>
      rw [stringTail_cons hesc, if_pos rfl] at h
      cases h
      rw [List.cons_append, stringTail_cons (fun d s hc => absurd hc hquote), if_pos rfl]
  | case4 c r hesc hne hstop =>
      rw [stringTail_cons hesc, if_neg hne, if_pos hstop] at h
      cases h
      obtain ⟨s, hs⟩ := hend rfl
      obtain ⟨rfl, rfl⟩ := List.cons.inj hs
      rw [List.cons_append, stringTail_cons (by simp), if_neg hne, if_pos hstop]
  | case5 c r hesc hne hstop ih =>
      rw [stringTail_cons hesc, if_neg hne, if_neg hstop] at h
      obtain ⟨rfl, hrest⟩ := Prod.mk.inj h
      have hplain : c ≠ '\\' := by
        rintro rfl
        simp at hstop
      rw [List.cons_append, stringTail_cons (fun d s hc => absurd hc hplain), if_neg hne,
        if_neg hstop, ih (Prod.ext rfl hrest) hend]

/-- A closed comment is the same whatever follows. -/
theorem commentTail_extend {t u p : Text} (h : commentTail t = (u, true, p)) (w : Text) :
    commentTail (t ++ w) = (u, true, p ++ w) := by
  induction t using commentTail.induct generalizing u with
  | case1 => cases h
  | case2 r =>
      cases h
      rfl
  | case3 c r hstar ih =>
      rw [commentTail_cons hstar] at h
      obtain ⟨rfl, hrest⟩ := Prod.mk.inj h
      have hr := ih (Prod.ext rfl hrest)
      rw [List.cons_append, commentTail_cons, hr]
      intro s hc hs
      cases r with
      | nil => cases hrest
      | cons d r =>
          obtain ⟨rfl, -⟩ := List.cons.inj hs
          exact hstar r hc rfl

/-- Nothing follows a comment that is left open. -/
theorem commentTail_open {t : Text} (h : (commentTail t).2.1 = false) :
    (commentTail t).2.2 = [] := by
  fun_induction commentTail t with
  | case1 => rfl
  | case2 => cases h
  | case3 _ _ _ _ ih => exact ih h

/-- A closed comment ends as it should. -/
theorem commentTail_closed {t : Text} (h : (commentTail t).2.1 = true) :
    ∃ l, (commentTail t).1 = l ++ ['*', '/'] := by
  induction t using commentTail.induct with
  | case1 => cases h
  | case2 r => exact ⟨[], rfl⟩
  | case3 c r hstar ih =>
      rw [commentTail_cons hstar] at h ⊢
      obtain ⟨l, hl⟩ := ih h
      exact ⟨c :: l, congrArg (c :: ·) hl⟩

-- ==================================================== left open

theorem munch_quote {c : Char} (hc : isQuote c = true) (b : Bool) (r : Text) :
    munch b c r = munchString c r := by
  have hslash : c ≠ '/' := by
    rintro rfl
    cases hc
  simp [munch, munchPlain, hslash, hc]

theorem munch_star (b : Bool) (r : Text) :
    munch b '/' ('*' :: r) =
      ⟨.blockComment (commentTail r).2.1, '/' :: '*' :: (commentTail r).1,
        (commentTail r).2.2⟩ := by
  cases b <;> rfl

/-- Only a literal or a block comment is left open. -/
theorem munch_open {b : Bool} {c : Char} {r : Text} {sp : Span}
    (h : PlacedToken.warning? ⟨(munch b c r).token, sp⟩ ≠ none) :
    isQuote c = true ∨ c = '/' ∧ ∃ s, r = '*' :: s := by
  unfold munch at h
  split at h
  · exact absurd rfl h
  · unfold munchPlain at h
    split at h
    · next hslash =>
        cases r with
        | nil => exact absurd rfl h
        | cons d s =>
            by_cases hline : d = '/'
            · subst hline
              exact absurd rfl h
            · by_cases hstar : d = '*'
              · exact Or.inr ⟨hslash, s, by rw [hstar]⟩
              · rw [munchSlash_of_ne hline hstar] at h
                exact absurd rfl h
    split at h
    · next hquote => exact Or.inl hquote
    split at h
    · exact absurd rfl h
    split at h
    · rcases wordToken_cases (c :: r.takeWhile continuesWord) with ⟨k, hk⟩ | hk <;>
        exact absurd (by rw [hk]; rfl) h
    split at h
    · exact absurd rfl h
    split at h
    · exact absurd rfl h
    split at h <;> exact absurd rfl h

end SchemaAtlas
