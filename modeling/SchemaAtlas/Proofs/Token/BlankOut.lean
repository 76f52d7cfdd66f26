/-
Texts with a comment written over. With white space in the place of a
comment a text has the same significant tokens, those behind the comment
moved up; and what stands between two places is the same as well, unless
the comment stands there.

- `Text.blankOut`: the text with a piece of it written over.
- `Text.blankedPlace`: where the positions of the text move.
- `significant_blankOut`: the significant tokens.
- `slice_blankOut_front`, `slice_blankOut_behind`, `slice_blankOut_within`:
  slices, and one with the comment in it.
-/
import SchemaAtlas.Proofs.Token.Comment

namespace SchemaAtlas

namespace Text

-- ==================================================== writing over

/-- The text with white space at the span. -/
def blankOut (t : Text) (s : Span) : Text :=
  (cut s.start t).1 ++ blanked (t.slice s.start s.stop) ++ (cut s.stop t).2

theorem blankOut_append (p l q : Text) {s : Span} (hstart : s.start = width p)
    (hstop : s.stop = width p + width l) :
    (p ++ l ++ q).blankOut s = p ++ blanked l ++ q := by
  have hfront : (cut (width p) (p ++ l ++ q)).1 = p := by
    rw [List.append_assoc, cut_width_append]
  have hbehind : (cut (width p + width l) (p ++ l ++ q)).2 = q := by
    rw [← width_append, cut_width_append]
  rw [blankOut, hstart, hstop, slice_append, hfront, hbehind]

end Text

-- ==================================================== whole texts

/-- The bytes that white space takes less than what stands at the
span. -/
def Text.blankedLoss (t : Text) (s : Span) : Nat :=
  (t.slice s.start s.stop).width - (Text.blanked (t.slice s.start s.stop)).width

/-- Where the position `n` of the text is once white space stands at the
span. -/
def Text.blankedPlace (t : Text) (s : Span) (n : Nat) : Nat :=
  max (min n s.start) (n - t.blankedLoss s)

/-- The span where the positions of its text are moved. -/
def Span.moved (f : Nat → Nat) (s : Span) : Span :=
  Span.of (f s.start) (f s.stop)

/-- The token where the positions of its text are moved. -/
def PlacedToken.moved (f : Nat → Nat) (x : PlacedToken) : PlacedToken :=
  { x with span := x.span.moved f }

/-- Moving all positions on by as much is a shift. -/
theorem Span.moved_add (n : Nat) (s : Span) : s.moved (· + n) = s.shift n := by
  ext
  · rfl
  · exact Nat.max_eq_left (Nat.add_le_add_right s.start_le_stop n)

theorem PlacedToken.moved_add (n : Nat) (x : PlacedToken) : x.moved (· + n) = x.shift n := by
  rw [PlacedToken.moved, Span.moved_add, PlacedToken.shift]

/-- A comment that ends by itself; behind a backslash no bracket stands in
it. -/
structure PlacedToken.IsErasable (t : Text) (x : PlacedToken) : Prop where
  mem : x ∈ tokenize t
  whole : x.token.isWholeComment = true
  unescaped : (Text.cut x.span.start t).1.getLast? = some '\\' →
    '[' ∉ t.slice x.span.start x.span.stop

section

open Text

variable {t p l q : Text} {s : Span} {n : Nat}

theorem Text.blankedPlace_mono (t : Text) (s : Span) {m n : Nat} (h : m ≤ n) :
    t.blankedPlace s m ≤ t.blankedPlace s n := by
  unfold blankedPlace
  omega

/-- In front of the span nothing moves. -/
theorem Text.blankedPlace_front (t : Text) (h : n ≤ s.start) : t.blankedPlace s n = n := by
  unfold blankedPlace
  omega

section

variable (hstart : s.start = width p) (hstop : s.stop = width p + width l)
include hstart hstop

/-- What stands behind the span stands behind the white space. -/
theorem Text.blankedPlace_behind (q : Text) (n : Nat) :
    (p ++ l ++ q).blankedPlace s (width p + width l + n) =
      width p + width (blanked l) + n := by
  have hle := width_blanked_le l
  unfold blankedPlace blankedLoss
  rw [hstart, hstop, slice_append]
  omega

theorem moved_front {b : Bool} {x : PlacedToken} (hx : x ∈ tokensFrom b 0 p) :
    x.moved ((p ++ l ++ q).blankedPlace s) = x := by
  have hbounds := bounds_of_mem_tokensFrom hx
  have hfront : x.span.start ≤ s.start ∧ x.span.stop ≤ s.start := by omega
  unfold PlacedToken.moved Span.moved
  rw [blankedPlace_front _ hfront.1, blankedPlace_front _ hfront.2]
  congr 1
  ext
  · rfl
  · exact Nat.max_eq_left x.span.start_le_stop

theorem map_moved_behind (b : Bool) :
    (tokensFrom b (width p + width l) q).map (·.moved ((p ++ l ++ q).blankedPlace s)) =
      tokensFrom b (width p + width (blanked l)) q := by
  have hshift : ∀ m, tokensFrom b m q = (tokensFrom b 0 q).map (·.shift m) := by
    intro m
    rw [← tokensFrom_shift, Nat.zero_add]
  rw [hshift, hshift (width p + width (blanked l)), List.map_map]
  apply List.map_congr_left
  intro x _
  show PlacedToken.moved _ (x.shift _) = x.shift _
  unfold PlacedToken.moved Span.moved PlacedToken.shift
  have hplace := blankedPlace_behind hstart hstop q
  simp only [Span.start_shift, Span.stop_shift, Nat.add_comm _ (width p + width l), hplace]
  congr 1
  ext
  · exact Nat.add_comm _ _
  · rw [Span.stop_of, Span.stop_shift]
    have hle := x.span.start_le_stop
    omega

end

namespace PlacedToken.IsErasable

variable {x : PlacedToken}

/-- The comment and the tokens around it. -/
theorem exists_cut (h : x.IsErasable t) :
    ∃ p l q, t = p ++ l ++ q ∧ x.span.start = width p ∧ x.span.stop = width p + width l
      ∧ IsComment l q ∧ (p.getLast? = some '\\' → '[' ∉ l)
      ∧ tokenize t = tokenize p ++
        x :: tokensFrom (regexBehind true (tokenize p)) (width p + width l) q := by
  obtain ⟨us, vs, hsplit⟩ := List.append_of_mem h.mem
  obtain ⟨p, t', rfl, rfl, ht'⟩ := tokensFrom_eq_append hsplit
  rw [Nat.zero_add] at ht'
  cases t' with
  | nil => rw [tokensFrom] at ht'; cases ht'
  | cons c r =>
      rw [tokensFrom] at ht'
      obtain ⟨rfl, rfl⟩ := List.cons.inj ht'
      generalize hm : munch (regexBehind true (tokensFrom true 0 p)) c r = m at hsplit h
      have happend : m.lexeme ++ m.rest = c :: r := hm ▸ munch_append _ c r
      have hcomment : IsComment m.lexeme m.rest := by
        rw [← hm]
        exact munch_isComment (hm ▸ h.whole)
      have hstop : Span.stop (Span.of (width p) (width p + m.lexeme.width)) =
          width p + width m.lexeme := Nat.max_eq_left (Nat.le_add_right _ _)
      refine ⟨p, m.lexeme, m.rest, ?_, rfl, hstop, hcomment, ?_, ?_⟩
      · rw [List.append_assoc, happend]
      · have hunescaped := h.unescaped
        rw [Span.start_of, hstop, cut_width_append, ← happend, ← List.append_assoc, slice_append]
          at hunescaped
        exact hunescaped
      · -- a comment changes nothing about what may begin behind it
        rw [Token.regexAfter, if_pos (Token.isTrivia_of_isWholeComment h.whole)] at hsplit
        exact hsplit

/-- A token that is no comment stands in front of it or behind it. -/
theorem apart_of_mem (h : x.IsErasable t) {y : PlacedToken} (hy : y ∈ tokenize t)
    (htrivia : y.token.isTrivia = false) :
    y.span.stop ≤ x.span.start ∨ x.span.stop ≤ y.span.start := by
  obtain ⟨p, l, q, rfl, hstart, hstop, -, -, htokens⟩ := h.exists_cut
  rw [htokens] at hy
  rcases List.mem_append.1 hy with hy | hy
  · have hbounds := bounds_of_mem_tokensFrom hy
    omega
  · rcases List.mem_cons.1 hy with rfl | hy
    · rw [Token.isTrivia_of_isWholeComment h.whole] at htrivia
      cases htrivia
    · have hbounds := bounds_of_mem_tokensFrom hy
      omega

/-- With white space in its place a comment leaves the significant tokens
as they are. -/
theorem significant_blankOut (h : x.IsErasable t) :
    significant (tokenize (t.blankOut x.span)) =
      (significant (tokenize t)).map (·.moved (t.blankedPlace x.span)) := by
  obtain ⟨p, l, q, rfl, hstart, hstop, hcomment, hunescaped, htokens⟩ := h.exists_cut
  obtain ⟨hreplaces, hescaped⟩ := replaces_comment hcomment
  have htrivia := Token.isTrivia_of_isWholeComment h.whole
  have hreplace := significant_replace hreplaces (fun hlast => hescaped (hunescaped hlast))
    (List.append_assoc p l q ▸ htokens)
  have hfront : (tokenize p).map (·.moved ((p ++ l ++ q).blankedPlace x.span)) = tokenize p :=
    (List.map_congr_left fun y hy => moved_front hstart hstop hy).trans (List.map_id _)
  rw [← significant_map (f := (·.moved _)) fun _ => rfl, htokens, List.map_append,
    List.map_cons, significant_append, significant_trivia (x := x.moved _) htrivia, hfront,
    map_moved_behind hstart hstop, blankOut_append p l q hstart hstop, List.append_assoc,
    tokenize, hreplace,
    significant_blank_append (isAllBlank_blanked l), Nat.zero_add]
  rfl

end PlacedToken.IsErasable

end

-- ==================================================== slices

namespace Text

section

variable {p r : Text} {start stop n : Nat}

theorem cut_append_left (h : n ≤ width p) (r : Text) :
    cut n (p ++ r) = ((cut n p).1, (cut n p).2 ++ r) := by
  induction p generalizing n with
  | nil =>
      obtain rfl : n = 0 := Nat.le_zero.1 h
      simp
  | cons c p ih =>
      rw [List.cons_append, cut, cut]
      by_cases hc : c.utf8Size ≤ n
      · rw [width_cons] at h
        rw [if_pos hc, if_pos hc, ih (by omega)]
      · rw [if_neg hc, if_neg hc]
        rfl

theorem cut_append_right (p r : Text) (n : Nat) :
    cut (width p + n) (p ++ r) = (p ++ (cut n r).1, (cut n r).2) := by
  induction p with
  | nil => simp
  | cons c p ih =>
      have hc : c.utf8Size ≤ width (c :: p) + n := by
        rw [width_cons]
        omega
      have hrest : width (c :: p) + n - c.utf8Size = width p + n := by
        rw [width_cons]
        omega
      rw [List.cons_append, cut, if_pos hc, hrest, ih]
      rfl

theorem width_cut_le (n : Nat) (t : Text) : width (cut n t).1 ≤ n := by
  induction t generalizing n with
  | nil => exact Nat.zero_le n
  | cons c t ih =>
      rw [cut]
      by_cases hc : c.utf8Size ≤ n
      · have hle := ih (n - c.utf8Size)
        rw [if_pos hc]
        show c.utf8Size + width _ ≤ n
        omega
      · rw [if_neg hc]
        exact Nat.zero_le n

/-- A slice of the front part. -/
theorem slice_append_left (hstop : stop ≤ width p) (r : Text) :
    (p ++ r).slice start stop = p.slice start stop := by
  unfold slice
  by_cases hle : start ≤ stop
  · have hwidth := congrArg width (cut_append start p)
    have hfront := width_cut_le start p
    rw [width_append] at hwidth
    rw [cut_append_left (by omega), cut_append_left (by omega)]
  · rw [Nat.sub_eq_zero_of_le (by omega), cut_zero, cut_zero]

/-- A slice of what stands behind it. -/
theorem slice_append_right (p r : Text) (start stop : Nat) :
    (p ++ r).slice (width p + start) (width p + stop) = r.slice start stop := by
  unfold slice
  rw [cut_append_right, Nat.add_sub_add_left]

end

section

variable {t : Text} {x : PlacedToken} (h : x.IsErasable t) {start stop : Nat}
include h

/-- A token that is no comment takes as many bytes as before. -/
theorem size_moved {y : PlacedToken} (hy : y ∈ tokenize t) (htrivia : y.token.isTrivia = false) :
    (y.moved (t.blankedPlace x.span)).span.size = y.span.size := by
  have hle := y.span.start_le_stop
  let f := t.blankedPlace x.span
  show max (f y.span.stop) (f y.span.start) - f y.span.start = y.span.stop - y.span.start
  dsimp only [f]
  rcases h.apart_of_mem hy htrivia with hfront | hbehind
  · rw [blankedPlace_front t hfront, blankedPlace_front t (Nat.le_trans hle hfront)]
    omega
  · obtain ⟨p, l, q, rfl, hp, hl, -⟩ := h.exists_cut
    obtain ⟨m, hm⟩ := Nat.exists_eq_add_of_le (hl ▸ hbehind)
    obtain ⟨n, hn⟩ := Nat.exists_eq_add_of_le (Nat.le_trans (Nat.le_add_right _ m) (hm ▸ hle))
    rw [hm, hn, blankedPlace_behind hp hl, blankedPlace_behind hp hl]
    omega

/-- A slice that ends in front of a comment. -/
theorem slice_blankOut_front (hstart : start ≤ stop) (hstop : stop ≤ x.span.start) :
    (t.blankOut x.span).slice (t.blankedPlace x.span start) (t.blankedPlace x.span stop) =
      t.slice start stop := by
  rw [blankedPlace_front t hstop, blankedPlace_front t (Nat.le_trans hstart hstop)]
  obtain ⟨p, l, q, rfl, hp, hl, -⟩ := h.exists_cut
  rw [hp] at hstop
  rw [blankOut_append p l q hp hl, List.append_assoc, List.append_assoc,
    slice_append_left hstop, slice_append_left hstop]

/-- A slice that begins behind a comment. -/
theorem slice_blankOut_behind (hstart : x.span.stop ≤ start) (hstop : start ≤ stop) :
    (t.blankOut x.span).slice (t.blankedPlace x.span start) (t.blankedPlace x.span stop) =
      t.slice start stop := by
  obtain ⟨p, l, q, rfl, hp, hl, -⟩ := h.exists_cut
  obtain ⟨m, rfl⟩ := Nat.exists_eq_add_of_le (hl ▸ hstart)
  obtain ⟨n, rfl⟩ := Nat.exists_eq_add_of_le (Nat.le_trans (Nat.le_add_right _ m) hstop)
  rw [blankedPlace_behind hp hl, blankedPlace_behind hp hl, blankOut_append p l q hp hl,
    ← width_append, ← width_append, slice_append_right, slice_append_right]

end

/-- A slice around a comment. -/
theorem slice_blankOut_within {t : Text} {y : PlacedToken} (h : y.IsErasable t) (p r : Text) :
    ((p ++ t ++ r).blankOut (y.span.shift (width p))).slice
        ((p ++ t ++ r).blankedPlace (y.span.shift (width p)) (width p))
        ((p ++ t ++ r).blankedPlace (y.span.shift (width p)) (width p + width t)) =
      t.blankOut y.span := by
  obtain ⟨a, l, b, rfl, ha, hl, -⟩ := h.exists_cut
  have hsplit : p ++ (a ++ l ++ b) ++ r = (p ++ a) ++ l ++ (b ++ r) := by simp
  have hstart : (y.span.shift (width p)).start = width (p ++ a) := by
    rw [Span.start_shift, ha, width_append, Nat.add_comm]
  have hstop : (y.span.shift (width p)).stop = width (p ++ a) + width l := by
    rw [Span.stop_shift, hl, width_append]
    omega
  have hfront : (p ++ (a ++ l ++ b) ++ r).blankedPlace (y.span.shift (width p)) (width p) =
      width p := by
    apply blankedPlace_front
    rw [hstart, width_append]
    omega
  have hbehind : (p ++ (a ++ l ++ b) ++ r).blankedPlace (y.span.shift (width p))
      (width p + width (a ++ l ++ b)) = width p + width (a ++ blanked l ++ b) := by
    have hplace := blankedPlace_behind hstart hstop (b ++ r) (width b)
    simp only [width_append, ← Nat.add_assoc] at hplace ⊢
    rw [hsplit]
    exact hplace
  have hblank : (p ++ (a ++ l ++ b) ++ r).blankOut (y.span.shift (width p)) =
      p ++ (a ++ blanked l ++ b) ++ r := by
    rw [hsplit, blankOut_append _ _ _ hstart hstop]
    simp
  rw [hfront, hbehind, hblank, slice_append, blankOut_append a l b ha hl]

end Text

section

open Text

/-- A comment of a piece of the text that is one of the text as well. -/
theorem PlacedToken.IsErasable.of_shift {p t r : Text} {y : PlacedToken}
    (h : (y.shift (width p)).IsErasable (p ++ t ++ r)) (hy : y ∈ tokenize t) :
    y.IsErasable t where
  mem := hy
  whole := h.whole
  unescaped := by
    have hbounds := bounds_of_mem_tokensFrom hy
    have hunescaped := h.unescaped
    have hstart : (y.shift (width p)).span.start = width p + y.span.start := Nat.add_comm ..
    have hstop : (y.shift (width p)).span.stop = width p + y.span.stop :=
      (Span.stop_shift ..).trans (Nat.add_comm ..)
    rw [hstart, hstop, List.append_assoc, cut_append_right, cut_append_left (by omega),
      slice_append_right, slice_append_left (by omega)] at hunescaped
    intro hlast
    apply hunescaped
    rw [List.getLast?_append, hlast]
    rfl

end

end SchemaAtlas
