/-
Locality of the lexer. What a token is depends on the characters it
takes and, at most, on the one that ends it; so a text cut off behind a
token is read as before up to the cut, and what stands behind the cut
is read as a text of its own once the lexer knows whether a regular
expression may begin there.

- `IsRegexTail`: what is read of a regular expression.
- `munch_cut`: a token in front of a cut is read the same without what
  stands behind the cut. The lemmas before it say so of every kind of
  token.
- `tokensFrom_shift`: where a text stands only moves its tokens.
- `tokensFrom_eq_append`: a list of tokens taken apart takes the text
  apart.
-/
import SchemaAtlas.Token.Lexer

namespace SchemaAtlas

-- ==================================================== runs

section

variable {q : Text}

theorem eq_nil_of_append {u p : Text} (h : u ++ (p ++ q) = q) : u = [] ∧ p = [] := by
  have hlength := congrArg List.length h
  simp only [List.length_append] at hlength
  exact ⟨List.length_eq_zero_iff.1 (by omega), List.length_eq_zero_iff.1 (by omega)⟩

theorem span_cut {f : Char → Bool} {r p : Text} (h : (r ++ q).dropWhile f = p ++ q) :
    (r ++ q).takeWhile f = r.takeWhile f ∧ r.dropWhile f = p := by
  induction r with
  | nil =>
      have hsplit := List.takeWhile_append_dropWhile (p := f) (l := q)
      rw [List.nil_append] at h
      rw [h] at hsplit
      obtain ⟨htake, hp⟩ := eq_nil_of_append hsplit
      exact ⟨htake, hp.symm⟩
  | cons c r ih =>
      rw [List.cons_append, List.dropWhile_cons] at h
      rw [List.cons_append, List.takeWhile_cons, List.takeWhile_cons, List.dropWhile_cons]
      by_cases hc : f c = true
      · rw [if_pos hc] at h
        obtain ⟨htake, hdrop⟩ := ih h
        simp [hc, htake, hdrop]
      · rw [if_neg hc] at h
        have hp : c :: r = p := List.append_cancel_right h
        simp [hc, hp]

-- ==================================================== literals and comments

theorem length_stringTail (quote : Char) (t : Text) :
    (stringTail quote t).2.2.length ≤ t.length := by
  have h := congrArg List.length (stringTail_append quote t)
  simp only [List.length_append] at h
  omega

theorem stringTail_cons {quote c : Char} {r : Text} (hesc : ∀ d s, c = '\\' → r = d :: s → False) :
    stringTail quote (c :: r) =
      if c = quote then ([], true, r)
      else if c = '\\' || (c = '\n' && quote ≠ '\x60') then ([], false, c :: r)
      else (c :: (stringTail quote r).1, (stringTail quote r).2) := by
  rw [stringTail]
  exact hesc

/-- Content without the quote, a backslash or a line break is read up to
its closing quote. -/
theorem stringTail_content {quote : Char} {c : Text} (hescaped : quote ≠ '\\') (hline : '\n' ∉ c)
    (hquote : quote ∉ c) (hescape : '\\' ∉ c) (s : Text) :
    stringTail quote (c ++ quote :: s) = (c, true, s) := by
  induction c with
  | nil =>
      rw [List.nil_append, stringTail_cons fun _ _ h => absurd h hescaped, if_pos rfl]
  | cons d c ih =>
      obtain ⟨hdline, hline⟩ : '\n' ≠ d ∧ '\n' ∉ c := by simpa using hline
      obtain ⟨hdquote, hquote⟩ : quote ≠ d ∧ quote ∉ c := by simpa using hquote
      obtain ⟨hdescape, hescape⟩ : '\\' ≠ d ∧ '\\' ∉ c := by simpa using hescape
      rw [List.cons_append, stringTail_cons fun _ _ h => absurd h (Ne.symm hdescape),
        if_neg (Ne.symm hdquote), if_neg (by simp [Ne.symm hdescape, Ne.symm hdline]),
        ih hline hquote hescape]

/-- A backslash in front of a cut takes no character from behind it. -/
theorem escape_of_stringTail {quote c : Char} {r u p : Text} {closed : Bool}
    (hesc : ∀ d s, c = '\\' → r = d :: s → False)
    (h : stringTail quote (c :: r ++ q) = (u, closed, p ++ q)) :
    ∀ d s, c = '\\' → r ++ q = d :: s → False := by
  intro d s hc hr
  cases r with
  | cons e r => exact hesc e r hc rfl
  | nil =>
      rw [List.nil_append] at hr
      have hlength := length_stringTail quote s
      have hrest := congrArg (fun t => t.2.2.length) h
      rw [hc, hr] at hrest
      simp [stringTail] at hrest
      omega

theorem stringTail_cut {quote : Char} {t u p : Text} {closed : Bool}
    (h : stringTail quote (t ++ q) = (u, closed, p ++ q)) :
    stringTail quote t = (u, closed, p) := by
  induction t using stringTail.induct quote generalizing u p with
  | case1 =>
      have happend := stringTail_append quote q
      rw [List.nil_append] at h
      rw [h, ← List.append_assoc] at happend
      obtain ⟨hu, rfl⟩ := eq_nil_of_append happend
      cases closed with
      | true => simp at hu
      | false =>
          rw [show u = [] by simpa using hu]
          rfl
  | case2 c r ih =>
      obtain ⟨rfl, hrest⟩ := Prod.mk.inj h
      rw [stringTail, ih (Prod.ext rfl hrest)]
      rfl
  | case3 r hesc =>
      rw [List.cons_append, stringTail_cons (escape_of_stringTail hesc h), if_pos rfl] at h
      rw [stringTail_cons hesc, if_pos rfl]
      obtain ⟨rfl, hrest⟩ := Prod.mk.inj h
      obtain ⟨rfl, hp⟩ := Prod.mk.inj hrest
      rw [List.append_cancel_right hp]
  | case4 c r hesc hquote hstop =>
      rw [List.cons_append, stringTail_cons (escape_of_stringTail hesc h), if_neg hquote,
        if_pos hstop, ← List.cons_append] at h
      rw [stringTail_cons hesc, if_neg hquote, if_pos hstop]
      obtain ⟨rfl, hrest⟩ := Prod.mk.inj h
      obtain ⟨rfl, hp⟩ := Prod.mk.inj hrest
      rw [List.append_cancel_right hp]
  | case5 c r hesc hquote hstop ih =>
      rw [List.cons_append, stringTail_cons (escape_of_stringTail hesc h), if_neg hquote,
        if_neg hstop] at h
      obtain ⟨rfl, hrest⟩ := Prod.mk.inj h
      rw [stringTail_cons hesc, if_neg hquote, if_neg hstop, ih (Prod.ext rfl hrest)]

theorem commentTail_cons {c : Char} {r : Text} (hstar : ∀ s, c = '*' → r = '/' :: s → False) :
    commentTail (c :: r) = (c :: (commentTail r).1, (commentTail r).2) := by
  rw [commentTail]
  exact hstar

/-- Content without the end of a comment is read up to that end. -/
theorem commentTail_content {c : Text} (hend : ¬['*', '/'] <:+: c) (s : Text) :
    commentTail (c ++ '*' :: '/' :: s) = (c ++ ['*', '/'], true, s) := by
  induction c with
  | nil => rfl
  | cons d c ih =>
      have hstar : ∀ r, d = '*' → c ++ '*' :: '/' :: s = '/' :: r → False := by
        rintro r rfl hr
        cases c with
        | nil => cases hr
        | cons x c =>
            obtain ⟨rfl, -⟩ := List.cons.inj hr
            exact hend ⟨[], c, rfl⟩
      rw [List.cons_append, commentTail_cons hstar,
        ih fun h => hend (h.trans (List.suffix_cons d c).isInfix)]
      rfl

/-- A star in front of a cut takes no slash from behind it. -/
theorem star_of_commentTail {c : Char} {r u p : Text} {closed : Bool}
    (hstar : ∀ s, c = '*' → r = '/' :: s → False)
    (h : commentTail (c :: r ++ q) = (u, closed, p ++ q)) :
    ∀ s, c = '*' → r ++ q = '/' :: s → False := by
  intro s hc hr
  cases r with
  | cons d r =>
      obtain ⟨rfl, -⟩ := List.cons.inj hr
      exact hstar r hc rfl
  | nil =>
      rw [List.nil_append] at hr
      have hrest := congrArg (fun t => t.2.2.length) h
      rw [hc, hr] at hrest
      simp [commentTail] at hrest
      omega

theorem commentTail_cut {t u p : Text} {closed : Bool}
    (h : commentTail (t ++ q) = (u, closed, p ++ q)) : commentTail t = (u, closed, p) := by
  induction t using commentTail.induct generalizing u p with
  | case1 =>
      have happend := commentTail_append q
      rw [List.nil_append] at h
      rw [h] at happend
      obtain ⟨rfl, rfl⟩ := eq_nil_of_append happend
      revert h
      fun_cases commentTail q <;> simp [commentTail]
  | case2 r =>
      obtain ⟨rfl, hrest⟩ := Prod.mk.inj h
      obtain ⟨rfl, hp⟩ := Prod.mk.inj hrest
      rw [commentTail, List.append_cancel_right hp]
  | case3 c r hstar ih =>
      rw [List.cons_append, commentTail_cons (star_of_commentTail hstar h)] at h
      obtain ⟨rfl, hrest⟩ := Prod.mk.inj h
      rw [commentTail_cons hstar, ih (Prod.ext rfl hrest)]

-- ==================================================== regular expressions

theorem regexTail_cons {inClass : Bool} {c : Char}
    (hc : ¬(decide (c = '\\') || decide (c = '\n')) = true) (r : Text) :
    regexTail inClass (c :: r) =
      if inClass then (regexTail (c ≠ ']') r).map fun t => (c :: t.1, t.2)
      else if c = '/' then some ([c], r)
      else (regexTail (c = '[') r).map fun t => (c :: t.1, t.2) := by
  rw [regexTail]
  · rw [if_neg hc]
  · rintro d s rfl
    simp at hc

/-- What is read of a regular expression from a place inside or outside a
character class on. -/
inductive IsRegexTail : Bool → Text → Prop
  /-- The closing slash. -/
  | close : IsRegexTail false ['/']
  | escape {inClass : Bool} {c : Char} {u : Text} (hline : c ≠ '\n') :
      IsRegexTail inClass u → IsRegexTail inClass ('\\' :: c :: u)
  | inside {c : Char} {u : Text} (hesc : c ≠ '\\') (hline : c ≠ '\n') :
      IsRegexTail (c ≠ ']') u → IsRegexTail true (c :: u)
  | outside {c : Char} {u : Text} (hesc : c ≠ '\\') (hline : c ≠ '\n') (hslash : c ≠ '/') :
      IsRegexTail (c = '[') u → IsRegexTail false (c :: u)

theorem isRegexTail_of_regexTail {inClass : Bool} {s u v : Text}
    (h : regexTail inClass s = some (u, v)) : IsRegexTail inClass u := by
  induction inClass, s using regexTail.induct generalizing u v with
  | case1 => cases h
  | case2 => simp [regexTail] at h
  | case3 inClass c r hline ih =>
      rw [regexTail, if_neg hline] at h
      obtain ⟨⟨u', v'⟩, hr, hu⟩ := Option.map_eq_some_iff.1 h
      cases hu
      exact .escape hline (ih hr)
  | case4 inClass c r hesc hc =>
      rw [regexTail, if_pos hc] at h
      · cases h
      · exact hesc
  | case5 c r hesc hc ih =>
      rw [regexTail_cons hc, if_pos rfl] at h
      obtain ⟨⟨u', v'⟩, hr, hu⟩ := Option.map_eq_some_iff.1 h
      cases hu
      obtain ⟨hplain, hline⟩ : c ≠ '\\' ∧ c ≠ '\n' := by simpa using hc
      exact .inside hplain hline (ih hr)
  | case6 inClass r hclass hesc hc =>
      rw [regexTail_cons hc, if_neg hclass, if_pos rfl] at h
      cases h
      rw [Bool.eq_false_iff.2 hclass]
      exact .close
  | case7 inClass c r hesc hc hclass hslash ih =>
      rw [regexTail_cons hc, if_neg hclass, if_neg hslash] at h
      obtain ⟨⟨u', v'⟩, hr, hu⟩ := Option.map_eq_some_iff.1 h
      cases hu
      obtain ⟨hplain, hline⟩ : c ≠ '\\' ∧ c ≠ '\n' := by simpa using hc
      rw [Bool.eq_false_iff.2 hclass]
      exact .outside hplain hline hslash (ih hr)

/-- It is read as such whatever follows it. -/
theorem IsRegexTail.regexTail_append {inClass : Bool} {u : Text} (h : IsRegexTail inClass u)
    (w : Text) : regexTail inClass (u ++ w) = some (u, w) := by
  induction h with
  | close =>
      show regexTail false ('/' :: w) = _
      rw [regexTail_cons (by decide), if_neg Bool.false_ne_true, if_pos rfl]
  | @escape inClass c u hline _ ih =>
      show regexTail inClass ('\\' :: c :: (u ++ w)) = _
      rw [regexTail, if_neg hline, ih]
      rfl
  | inside hesc hline _ ih =>
      rw [List.cons_append, regexTail_cons (by simp [hesc, hline]), if_pos rfl, ih]
      rfl
  | outside hesc hline hslash _ ih =>
      rw [List.cons_append, regexTail_cons (by simp [hesc, hline]), if_neg Bool.false_ne_true,
        if_neg hslash, ih]
      rfl

/-- A regular expression is read the same whatever follows it. -/
theorem regexTail_congr {inClass : Bool} {s u v : Text} (h : regexTail inClass s = some (u, v))
    (w : Text) : regexTail inClass (u ++ w) = some (u, w) :=
  (isRegexTail_of_regexTail h).regexTail_append w

theorem regexTail_ne_nil {inClass : Bool} {s u v : Text}
    (h : regexTail inClass s = some (u, v)) : u ≠ [] := by
  rintro rfl
  have hnil := regexTail_congr h []
  cases hnil

/-- The expression in front of a cut is found behind it as well. -/
theorem regexBody_append_isSome {t : Text} (h : (regexBody t).isSome) (w : Text) :
    (regexBody (t ++ w)).isSome := by
  cases t with
  | nil => cases h
  | cons c r =>
      rw [List.cons_append, regexBody]
      rw [regexBody] at h
      split at h
      · cases h
      · next hc =>
          rw [Option.isSome_map, Option.isSome_iff_exists] at h
          obtain ⟨⟨u, v⟩, hr⟩ := h
          rw [if_neg hc, Option.isSome_map, ← List.cons_append, ← regexTail_append hr,
            List.append_assoc, regexTail_congr hr]
          rfl

theorem regexBody_ne_nil {t u v : Text} (h : regexBody t = some (u, v)) : u ≠ [] := by
  cases t with
  | nil => cases h
  | cons c r =>
      rw [regexBody] at h
      split at h
      · cases h
      · obtain ⟨⟨u', v'⟩, hr, hu⟩ := Option.map_eq_some_iff.1 h
        cases hu
        intro hnil
        exact regexTail_ne_nil hr (List.append_eq_nil_iff.1 hnil).1

theorem regexBody_cut {t u p : Text} (h : regexBody (t ++ q) = some (u, p ++ q)) :
    regexBody t = some (u, p) := by
  cases t with
  | nil => exact absurd (eq_nil_of_append (regexBody_append h)).1 (regexBody_ne_nil h)
  | cons c r =>
      rw [List.cons_append, regexBody] at h
      rw [regexBody]
      split at h
      · cases h
      · next hc =>
          obtain ⟨⟨u', v⟩, hr, hu⟩ := Option.map_eq_some_iff.1 h
          obtain ⟨rfl, hp⟩ := Prod.mk.inj hu
          -- what stands behind the closing slash begins in front of the cut
          have hv : v = (v.takeWhile Text.isAsciiLetter ++ p) ++ q := by
            rw [List.append_assoc, ← hp, List.takeWhile_append_dropWhile]
          have ht : u' ++ (v.takeWhile Text.isAsciiLetter ++ p) = c :: r := by
            have happend := regexTail_append hr
            rw [hv, ← List.append_assoc] at happend
            exact List.append_cancel_right happend
          rw [hv] at hp
          obtain ⟨htake, hdrop⟩ := span_cut hp
          rw [if_neg hc, ← ht, regexTail_congr hr]
          rw [← hv] at htake
          simp only [Option.map_some, ← htake, hdrop]

-- ==================================================== numbers and slashes

theorem fractionTail_cases (t : Text) :
    fractionTail t = ([], t) ∨
      ∃ d r, t = '.' :: d :: r ∧ Text.isDigit d = true ∧
        fractionTail t = ('.' :: d :: r.takeWhile Text.isDigit, r.dropWhile Text.isDigit) := by
  fun_cases fractionTail t with
  | case1 d r hd => exact Or.inr ⟨d, r, rfl, hd, rfl⟩
  | case2 d r hd => exact Or.inl rfl
  | case3 => exact Or.inl rfl

theorem fractionTail_cut {t u p : Text} (h : fractionTail (t ++ q) = (u, p ++ q)) :
    fractionTail t = (u, p) := by
  rcases fractionTail_cases (t ++ q) with hnone | ⟨d, r, hr, hd, hsome⟩
  · rw [hnone] at h
    obtain ⟨rfl, hp⟩ := Prod.mk.inj h
    obtain rfl := List.append_cancel_right hp
    rcases fractionTail_cases t with hnone' | ⟨d, r, rfl, hd, -⟩
    · exact hnone'
    · simp [fractionTail, hd] at hnone
  · rw [hsome] at h
    obtain ⟨rfl, hp⟩ := Prod.mk.inj h
    have hlength := congrArg List.length hp
    have htext := congrArg List.length hr
    have hdrop := (List.dropWhile_suffix (l := r) Text.isDigit).length_le
    simp only [List.length_append, List.length_cons] at hlength htext
    match t with
    | [] => simp at htext; omega
    | [c] => simp at htext; omega
    | c :: e :: t =>
        rw [List.cons_append, List.cons_append] at hr
        obtain ⟨hc, hr⟩ := List.cons.inj hr
        obtain ⟨rfl, rfl⟩ := List.cons.inj hr
        obtain ⟨htake, hdrop⟩ := span_cut hp
        rw [htake, ← hdrop]
        simp [fractionTail, hc, hd]

theorem munchSlash_of_ne {c : Char} (hslash : c ≠ '/') (hstar : c ≠ '*') (r : Text) :
    munchSlash (c :: r) = ⟨.other '/', ['/'], c :: r⟩ := by
  rw [munchSlash.eq_def]
  split
  · next h => exact absurd (List.cons.inj h).1 hslash
  · next h => exact absurd (List.cons.inj h).1 hstar
  · rfl

theorem munchSlash_cut {t lexeme p : Text} {token : Token}
    (h : munchSlash (t ++ q) = ⟨token, lexeme, p ++ q⟩) :
    munchSlash t = ⟨token, lexeme, p⟩ := by
  match t with
  | [] =>
      rw [List.nil_append] at h
      have hlength := congrArg List.length (munchPlain_append '/' q)
      rw [show munchPlain '/' q = _ from h] at hlength
      simp only [List.length_append, List.length_cons] at hlength
      match q with
      | [] =>
          rw [List.append_nil] at h
          exact h
      | c :: r =>
          by_cases hslash : c = '/'
          · subst hslash
            obtain ⟨rfl, rfl, -⟩ := Munch.mk.inj h
            simp at hlength
            omega
          · by_cases hstar : c = '*'
            · subst hstar
              obtain ⟨rfl, rfl, -⟩ := Munch.mk.inj h
              simp at hlength
              omega
            · rw [munchSlash_of_ne hslash hstar] at h
              obtain ⟨rfl, rfl, -⟩ := Munch.mk.inj h
              have hp : p = [] := List.length_eq_zero_iff.1 (by simp at hlength; omega)
              rw [hp]
              rfl
  | c :: r =>
      rw [List.cons_append] at h
      by_cases hslash : c = '/'
      · subst hslash
        obtain ⟨rfl, rfl, hp⟩ := Munch.mk.inj h
        obtain ⟨htake, hdrop⟩ := span_cut hp
        rw [htake, ← hdrop]
        rfl
      · by_cases hstar : c = '*'
        · subst hstar
          obtain ⟨rfl, rfl, hp⟩ := Munch.mk.inj h
          have hr := commentTail_cut (t := r) (Prod.ext rfl (Prod.ext rfl hp))
          show Munch.mk (.blockComment (commentTail r).2.1) ('/' :: '*' :: (commentTail r).1)
            (commentTail r).2.2 = _
          rw [hr]
        · rw [munchSlash_of_ne hslash hstar, ← List.cons_append] at h
          obtain ⟨rfl, rfl, hp⟩ := Munch.mk.inj h
          rw [munchSlash_of_ne hslash hstar, List.append_cancel_right hp]

-- ==================================================== one token

variable {t lexeme p : Text} {token : Token}

theorem munchString_cut {quote : Char}
    (h : munchString quote (t ++ q) = ⟨token, lexeme, p ++ q⟩) :
    munchString quote t = ⟨token, lexeme, p⟩ := by
  obtain ⟨rfl, rfl, hp⟩ := Munch.mk.inj h
  unfold munchString
  rw [stringTail_cut (Prod.ext rfl (Prod.ext rfl hp))]

theorem munchNumber_cut {c : Char} (h : munchNumber c (t ++ q) = ⟨token, lexeme, p ++ q⟩) :
    munchNumber c t = ⟨token, lexeme, p⟩ := by
  rcases hfraction : fractionTail ((t ++ q).dropWhile Text.isDigit) with ⟨u, v⟩
  have hrest := fractionTail_append ((t ++ q).dropWhile Text.isDigit)
  simp only [munchNumber, hfraction] at h hrest
  obtain ⟨rfl, rfl, rfl⟩ := Munch.mk.inj h
  -- the whole digits and the fraction are cut one after the other
  rw [← List.append_assoc] at hrest
  obtain ⟨htake, hdrop⟩ := span_cut hrest.symm
  rw [← hrest] at hfraction
  simp only [munchNumber, hdrop, fractionTail_cut hfraction, htake]

theorem munchPlain_cut {c : Char} (h : munchPlain c (t ++ q) = ⟨token, lexeme, p ++ q⟩) :
    munchPlain c t = ⟨token, lexeme, p⟩ := by
  unfold munchPlain at h ⊢
  by_cases hslash : c = '/'
  · rw [if_pos hslash] at h ⊢
    exact munchSlash_cut h
  rw [if_neg hslash] at h ⊢
  by_cases hquote : isQuote c = true
  · rw [if_pos hquote] at h ⊢
    exact munchString_cut h
  rw [if_neg hquote] at h ⊢
  by_cases hdigit : Text.isDigit c = true
  · rw [if_pos hdigit] at h ⊢
    exact munchNumber_cut h
  rw [if_neg hdigit] at h ⊢
  by_cases hword : beginsWord c = true
  · rw [if_pos hword] at h ⊢
    obtain ⟨rfl, rfl, hp⟩ := Munch.mk.inj h
    obtain ⟨htake, hdrop⟩ := span_cut hp
    rw [htake, hdrop]
  rw [if_neg hword] at h ⊢
  cases hmark : Mark.ofChar? c with
  | some m =>
      rw [hmark] at h
      obtain ⟨rfl, rfl, hp⟩ := Munch.mk.inj h
      simp only [List.append_cancel_right hp]
  | none =>
      rw [hmark] at h
      simp only at h ⊢
      by_cases hline : c = '\n'
      · rw [if_pos hline] at h ⊢
        obtain ⟨rfl, rfl, hp⟩ := Munch.mk.inj h
        rw [List.append_cancel_right hp]
      rw [if_neg hline] at h ⊢
      by_cases hblank : Text.isBlank c = true
      · rw [if_pos hblank] at h ⊢
        obtain ⟨rfl, rfl, hp⟩ := Munch.mk.inj h
        obtain ⟨htake, hdrop⟩ := span_cut hp
        rw [htake, hdrop]
      · rw [if_neg hblank] at h ⊢
        obtain ⟨rfl, rfl, hp⟩ := Munch.mk.inj h
        rw [List.append_cancel_right hp]

/-- A token that ends in front of a cut is read the same without what
stands behind the cut. -/
theorem munch_cut {b : Bool} {c : Char} (h : munch b c (t ++ q) = ⟨token, lexeme, p ++ q⟩) :
    munch b c t = ⟨token, lexeme, p⟩ := by
  unfold munch at h ⊢
  by_cases hslash : (b && c = '/') = true
  · rw [if_pos hslash] at h ⊢
    cases hwhole : regexBody (t ++ q) with
    | some u =>
        rw [hwhole] at h
        obtain ⟨rfl, rfl, hp⟩ := Munch.mk.inj h
        rw [regexBody_cut (hwhole.trans (congrArg some (Prod.ext rfl hp)))]
    | none =>
        rw [hwhole] at h
        cases hpart : regexBody t with
        | none => exact munchPlain_cut h
        | some u =>
            have hsome := regexBody_append_isSome (t := t) (by rw [hpart]; rfl) q
            rw [hwhole] at hsome
            cases hsome
  · rw [if_neg hslash] at h ⊢
    exact munchPlain_cut h

end

-- ==================================================== all tokens

/-- Whether a regular expression may begin behind the tokens `ts`. -/
def regexBehind (before : Bool) (ts : List PlacedToken) : Bool :=
  ts.foldl (fun b t => t.token.regexAfter b) before

theorem Span.shift_of (start stop n : Nat) :
    (Span.of start stop).shift n = Span.of (start + n) (stop + n) := by
  ext
  · rfl
  · exact (Nat.add_max_add_right stop start n).symm

/-- Where a text stands only moves its tokens. -/
theorem tokensFrom_shift (b : Bool) (start n : Nat) (t : Text) :
    tokensFrom b (start + n) t = (tokensFrom b start t).map (·.shift n) := by
  fun_induction tokensFrom b start t with
  | case1 => rw [tokensFrom]; rfl
  | case2 b start c r m ih =>
      have hmove : start + n + m.lexeme.width = start + m.lexeme.width + n := by omega
      rw [tokensFrom, List.map_cons, ← ih, PlacedToken.shift, Span.shift_of, ← hmove]

/-- A list of tokens taken apart takes the text apart at the same
place. -/
theorem tokensFrom_eq_append {b : Bool} {start : Nat} {t : Text} {us vs : List PlacedToken}
    (h : tokensFrom b start t = us ++ vs) :
    ∃ p q, t = p ++ q ∧ tokensFrom b start p = us ∧
      tokensFrom (regexBehind b us) (start + p.width) q = vs := by
  induction us generalizing b start t with
  | nil => exact ⟨[], t, rfl, by rw [tokensFrom], h⟩
  | cons u us ih =>
      cases t with
      | nil => rw [tokensFrom] at h; cases h
      | cons c r =>
          rw [tokensFrom] at h
          obtain ⟨rfl, hlater⟩ := List.cons.inj h
          rcases hm : munch b c r with ⟨token, lexeme, rest⟩
          rw [hm] at hlater
          obtain ⟨p, q, rfl, hp, hq⟩ := ih hlater
          have happend := munch_append b c r
          have hne := munch_lexeme_ne_nil b c r
          rw [hm] at happend hne
          obtain ⟨d, l, rfl⟩ := List.exists_cons_of_ne_nil hne
          obtain ⟨rfl, rfl⟩ := List.cons.inj happend
          rw [List.append_eq, ← List.append_assoc] at hm
          refine ⟨d :: (l ++ p), q, by simp, ?_, ?_⟩
          · rw [tokensFrom, munch_cut hm, hp]
          · rw [← hq, ← List.cons_append, Text.width_append, Nat.add_assoc]
            rfl

end SchemaAtlas
