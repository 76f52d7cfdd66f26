/-
What stands at the place of a token. A span marks a piece of a text if
it begins and ends where the piece does, hence between characters. The
span of every token marks the characters from which the token was read,
and these can be told from the token.

- `Span.Marks`: what stands at a span.
- `munch_isSpelled`: the characters of a token.
- `exists_spelling`: what stands at a token's span.
-/
import SchemaAtlas.Proofs.Token.Extension
import SchemaAtlas.Proofs.Token.Position

namespace SchemaAtlas

-- ==================================================== marked text

/-- The text `q` is what stands in `t` at the span. -/
def Span.Marks (s : Span) (t q : Text) : Prop :=
  ∃ p r, t = p ++ q ++ r ∧ s.start = Text.width p ∧ s.stop = Text.width p + Text.width q

namespace Span.Marks

variable {s s' : Span} {t q q' : Text}

theorem stop_eq (h : s.Marks t q) : s.stop = s.start + q.width := by
  obtain ⟨p, r, -, hstart, hstop⟩ := h
  rw [hstart, hstop]

/-- A span that marks something lies inside the text. -/
theorem stop_le_width (h : s.Marks t q) : s.stop ≤ t.width := by
  obtain ⟨p, r, rfl, -, hstop⟩ := h
  rw [Text.width_append, Text.width_append, hstop]
  omega

theorem slice_eq (h : s.Marks t q) : t.slice s.start s.stop = q := by
  obtain ⟨p, r, rfl, hstart, hstop⟩ := h
  rw [hstart, hstop, Text.slice_append]

/-- What stands in a piece of a text stands in the text, as much further
on as the piece. -/
theorem shift (h : s.Marks t q) (p r : Text) : (s.shift p.width).Marks (p ++ t ++ r) q := by
  obtain ⟨p', r', rfl, hstart, hstop⟩ := h
  refine ⟨p ++ p', r' ++ r, by simp, ?_, ?_⟩
  · rw [Span.start_shift, Text.width_append, hstart, Nat.add_comm]
  · rw [Span.stop_shift, Text.width_append, hstop]
    omega

/-- Two pieces of a text, one behind the other, and what lies between
them. -/
theorem between (h : s.Marks t q) (h' : s'.Marks t q') (hle : s.stop ≤ s'.start) :
    ∃ p m r, t = p ++ q ++ m ++ q' ++ r ∧ s.start = Text.width p
      ∧ s'.start = Text.width (p ++ q ++ m) := by
  obtain ⟨p, r, rfl, hstart, hstop⟩ := h
  obtain ⟨p', r', htext, hstart', -⟩ := h'
  have hwidth : Text.width (p ++ q) ≤ Text.width p' := by
    rw [Text.width_append]
    omega
  rw [List.append_assoc p'] at htext
  obtain ⟨m, rfl⟩ : p ++ q <+: p' := by
    rcases List.prefix_or_prefix_of_prefix (List.prefix_append (p ++ q) r)
        (htext ▸ List.prefix_append p' (q' ++ r')) with hprefix | ⟨m, hm⟩
    · exact hprefix
    · -- a longer prefix of no greater width is the same
      have hm' := congrArg Text.width hm
      rw [Text.width_append] at hm'
      rw [Text.width_eq_zero.1 (by omega : Text.width m = 0), List.append_nil] at hm
      exact hm ▸ List.prefix_rfl
  exact ⟨p, m, r', by rw [htext, List.append_assoc (p ++ q ++ m)], hstart, hstart'⟩

/-- The union of two spans marks all from one to the other. -/
theorem union (h : s.Marks t q) (h' : s'.Marks t q') (hle : s.stop ≤ s'.start) :
    ∃ m, (s.union s').Marks t (q ++ m ++ q') := by
  obtain ⟨p, m, r, htext, hstart, hstart'⟩ := h.between h' hle
  have hstop := h.stop_eq
  have hstop' := h'.stop_eq
  simp only [Text.width_append] at hstart'
  refine ⟨m, p, r, by rw [htext]; simp, ?_, ?_⟩
  · rw [Span.union, Span.start_of]
    omega
  · rw [Span.union, Span.stop_of]
    simp only [Text.width_append]
    omega

end Span.Marks

-- ==================================================== spelling

/-- The characters from which a token is read: its name, its text with
what encloses it, or its one character. Comments only begin and white
space only is as it should be. -/
def Token.IsSpelled (t : Token) (l : Text) : Prop :=
  match t with
  | .keyword k => l = k.word.toList
  | .identifier name => l = name.toList
  | .string content quote closed =>
      l = quote :: content.toList ++ if closed then [quote] else []
  | .number text | .regex text => l = text.toList
  | .mark m => l = [m.char]
  | .other c => l = [c]
  | .lineComment text => l = '/' :: '/' :: text.toList
  | .blockComment _ => ∃ r, l = '/' :: '*' :: r
  | .space => l.isAllBlank = true
  | .newline => l = ['\n']

theorem wordToken_isSpelled (word : Text) : (wordToken word).IsSpelled word := by
  unfold wordToken
  split
  · next k h =>
      have hk : k.word = String.ofList word := by simpa using List.find?_some h
      show word = k.word.toList
      rw [hk, String.toList_ofList]
  · exact (String.toList_ofList).symm

theorem munchSlash_isSpelled (r : Text) : (munchSlash r).token.IsSpelled (munchSlash r).lexeme := by
  fun_cases munchSlash r with
  | case1 r line =>
      show '/' :: '/' :: line = '/' :: '/' :: (String.ofList line).toList
      rw [String.toList_ofList]
  | case2 r t => exact ⟨t.1, rfl⟩
  | case3 => rfl

theorem munchPlain_isSpelled (c : Char) (r : Text) :
    (munchPlain c r).token.IsSpelled (munchPlain c r).lexeme := by
  unfold munchPlain
  by_cases hslash : c = '/'
  · rw [if_pos hslash]
    exact munchSlash_isSpelled r
  rw [if_neg hslash]
  by_cases hquote : isQuote c = true
  · rw [if_pos hquote]
    show _ = c :: (String.ofList _).toList ++ _
    rw [String.toList_ofList]
    rfl
  rw [if_neg hquote]
  by_cases hdigit : Text.isDigit c = true
  · rw [if_pos hdigit]
    exact String.toList_ofList.symm
  rw [if_neg hdigit]
  by_cases hword : beginsWord c = true
  · rw [if_pos hword]
    exact wordToken_isSpelled _
  rw [if_neg hword]
  cases hmark : Mark.ofChar? c with
  | some m =>
      have hm : m.char = c := by
        unfold Mark.ofChar? at hmark
        simpa using List.find?_some hmark
      show [c] = [m.char]
      rw [hm]
  | none =>
      simp only
      by_cases hline : c = '\n'
      · rw [if_pos hline]
        exact congrArg (· :: []) hline
      rw [if_neg hline]
      by_cases hblank : Text.isBlank c = true
      · rw [if_pos hblank]
        show Text.isAllBlank (c :: _) = true
        rw [Text.isAllBlank, List.all_cons, hblank, Bool.true_and, List.all_eq_true]
        intro d hd
        exact (Bool.and_eq_true_iff.1 (List.all_eq_true.1 List.all_takeWhile d hd)).1
      · rw [if_neg hblank]
        rfl

/-- The characters of a token. -/
theorem munch_isSpelled (b : Bool) (c : Char) (r : Text) :
    (munch b c r).token.IsSpelled (munch b c r).lexeme := by
  unfold munch
  split
  · exact String.toList_ofList.symm
  · exact munchPlain_isSpelled c r

/-- Nothing follows a block comment that is left open. -/
theorem munch_openComment {b : Bool} {c : Char} {r : Text}
    (h : (munch b c r).token = .blockComment false) : (munch b c r).rest = [] := by
  have hwarning : PlacedToken.warning? ⟨(munch b c r).token, default⟩ ≠ none := by
    rw [h]
    exact Option.some_ne_none _
  rcases munch_open hwarning with hquote | ⟨rfl, s, rfl⟩
  · rw [munch_quote hquote] at h
    cases h
  · rw [munch_star] at h ⊢
    exact commentTail_open (Token.blockComment.inj h)

-- ==================================================== places

section

variable {b : Bool} {start : Nat} {t : Text} {x : PlacedToken}

/-- A token is taken off what follows its place. -/
theorem exists_munch (h : x ∈ tokensFrom b start t) :
    ∃ b' p c r, t = p ++ c :: r ∧ x = ⟨(munch b' c r).token, Span.of (start + Text.width p)
      (start + Text.width p + Text.width (munch b' c r).lexeme)⟩ := by
  fun_induction tokensFrom b start t with
  | case1 => cases h
  | case2 b start c r m ih =>
      rcases List.mem_cons.1 h with rfl | h
      · exact ⟨b, [], c, r, rfl, rfl⟩
      · obtain ⟨b', p, d, s, hrest, hx⟩ := ih h
        refine ⟨b', m.lexeme ++ p, d, s, ?_, ?_⟩
        · rw [List.append_assoc, ← hrest, munch_append]
        · rw [hx, Text.width_append]
          simp only [Nat.add_assoc]

/-- At a token's span stands what it is read from. -/
theorem exists_spelling (h : x ∈ tokensFrom b start t) :
    ∃ p l r, t = p ++ l ++ r ∧ x.span = Span.of (start + Text.width p)
      (start + Text.width p + Text.width l) ∧ x.token.IsSpelled l
      ∧ (x.token = .blockComment false → r = []) := by
  obtain ⟨b', p, c, r, rfl, rfl⟩ := exists_munch h
  refine ⟨p, (munch b' c r).lexeme, (munch b' c r).rest, ?_, rfl, munch_isSpelled b' c r,
    munch_openComment⟩
  rw [List.append_assoc, munch_append]

/-- In a whole text its span marks what is taken off. -/
theorem exists_munch_marks (h : x ∈ tokenize t) :
    ∃ b' c r, x.token = (munch b' c r).token ∧ x.span.Marks t (munch b' c r).lexeme := by
  obtain ⟨b', p, c, r, rfl, rfl⟩ := exists_munch h
  refine ⟨b', c, r, rfl, p, (munch b' c r).rest, ?_, ?_, ?_⟩
  · rw [List.append_assoc, munch_append]
  · rw [Span.start_of, Nat.zero_add]
  · rw [Span.stop_of]
    omega

theorem exists_marks (h : x ∈ tokenize t) : ∃ l, x.span.Marks t l ∧ x.token.IsSpelled l := by
  obtain ⟨b', c, r, htoken, hmarks⟩ := exists_munch_marks h
  exact ⟨_, hmarks, htoken ▸ munch_isSpelled b' c r⟩

end

end SchemaAtlas
