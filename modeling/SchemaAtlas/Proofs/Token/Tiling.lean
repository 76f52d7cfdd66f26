/-
Reading a text loses nothing. The spans of the tokens tile the text: the
first begins with it, each begins where the one before ends, the last
ends with it, and none is empty or ends within a character. What stands
at a token's span can be told from the token, and the text is these
pieces one behind the other.

- `Tiles`: tokens that lie end to end over a whole text.
- `tiles_tokenize`: the tokens of a text tile it.
- `tokenize_lossless`: what stands at the place of every token, and that
  no character is passed over.
-/
import SchemaAtlas.Proofs.Token.Content
import SchemaAtlas.Proofs.Token.Rule

namespace SchemaAtlas

-- ==================================================== end to end

/-- The tokens lie end to end over the whole text. -/
structure Tiles (ts : List PlacedToken) (t : Text) : Prop where
  /-- The first begins where the text does. -/
  first : ∀ x ∈ ts.head?, x.span.start = 0
  /-- Each begins where the one before ends. -/
  adjoining : ts.IsChain fun x y => x.span.stop = y.span.start
  /-- The last ends where the text does. -/
  last : ∀ x ∈ ts.getLast?, x.span.stop = t.width
  /-- None is empty. -/
  nonempty : ∀ x ∈ ts, x.span.start < x.span.stop
  /-- Each begins and ends between characters. -/
  onBoundaries : ∀ x ∈ ts, ∃ l, x.span.Marks t l
  /-- The text is what stands at their spans. -/
  rebuilds : ts.flatMap (fun x => t.slice x.span.start x.span.stop) = t

section

variable {b : Bool} {start : Nat} {t : Text} {x : PlacedToken}

theorem start_of_head? (h : x ∈ (tokensFrom b start t).head?) : x.span.start = start := by
  cases t with
  | nil => rw [tokensFrom] at h; cases h
  | cons c r => rw [tokensFrom] at h; cases h; rfl

theorem isChain_tokensFrom (b : Bool) (start : Nat) (t : Text) :
    (tokensFrom b start t).IsChain fun x y => x.span.stop = y.span.start := by
  fun_induction tokensFrom b start t with
  | case1 => exact List.IsChain.nil
  | case2 b start c r m ih =>
      refine List.isChain_cons.2 ⟨fun y hy => ?_, ih⟩
      rw [start_of_head? hy, Span.stop_of]
      exact Nat.max_eq_left (Nat.le_add_right ..)

theorem stop_of_getLast? (h : x ∈ (tokensFrom b start t).getLast?) :
    x.span.stop = start + t.width := by
  obtain ⟨us, hus⟩ := List.getLast?_eq_some_iff.1 h
  obtain ⟨p, q, rfl, -, hq⟩ := tokensFrom_eq_append hus
  rw [span_of_tokensFrom hq, Span.stop_of, Text.width_append]
  omega

/-- What stands at the spans, one behind the other, where the tokens
follow the text `p`. -/
theorem flatMap_slice_tokensFrom (b : Bool) (p t : Text) :
    (tokensFrom b p.width t).flatMap (fun x => (p ++ t).slice x.span.start x.span.stop) = t := by
  generalize hstart : p.width = start
  fun_induction tokensFrom b start t generalizing p with
  | case1 => rfl
  | case2 b start c r m ih =>
      have hread : m.lexeme ++ m.rest = c :: r := munch_append b c r
      have htext : p ++ c :: r = p ++ m.lexeme ++ m.rest := by
        rw [List.append_assoc, hread]
      have hslice : (p ++ c :: r).slice start (max (start + m.lexeme.width) start) = m.lexeme := by
        rw [Nat.max_eq_left (Nat.le_add_right ..), htext, ← hstart, Text.slice_append]
      have hlater := ih (p ++ m.lexeme) (by rw [Text.width_append, hstart])
      rw [← htext] at hlater
      rw [List.flatMap_cons, Span.start_of, Span.stop_of, hslice, hlater, hread]

end

/-- The tokens of a text tile it. -/
theorem tiles_tokenize (t : Text) : Tiles (tokenize t) t where
  first _ h := start_of_head? h
  adjoining := isChain_tokensFrom true 0 t
  last _ h := (stop_of_getLast? h).trans (Nat.zero_add _)
  nonempty _ h := (bounds_of_mem_tokensFrom h).2.1
  onBoundaries _ h := (exists_marks h).imp fun _ hl => hl.1
  rebuilds := flatMap_slice_tokensFrom true [] t

-- ==================================================== what is read

/-- A token tells what stands at its span, and what stands there ends
where such a token has to end. -/
theorem slice_of_mem_tokenize {t : Text} {x : PlacedToken} (h : x ∈ tokenize t) :
    x.token.IsSpelled (t.slice x.span.start x.span.stop)
      ∧ x.token.IsConfined (t.slice x.span.start x.span.stop) := by
  obtain ⟨b, c, r, htoken, hmarks⟩ := exists_munch_marks h
  rw [hmarks.slice_eq, htoken]
  exact ⟨munch_isSpelled b c r, munch_isConfined b c r⟩

/-- The tokens of a text tile it, each tells what stands at its span, and
they are what the rules read, with no character at which every rule
refuses. -/
theorem tokenize_lossless (t : Text) :
    Tiles (tokenize t) t
      ∧ (∀ x ∈ tokenize t, x.token.IsSpelled (t.slice x.span.start x.span.stop)
        ∧ x.token.IsConfined (t.slice x.span.start x.span.stop))
      ∧ Rule.read true 0 t = (tokenize t, []) :=
  ⟨tiles_tokenize t, fun _ h => slice_of_mem_tokenize h, Rule.read_eq true 0 t⟩

end SchemaAtlas
