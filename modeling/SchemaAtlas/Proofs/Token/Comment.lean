/-
Comments as white space. Where a comment stands white space of as many
characters may stand, its line breaks kept: no token in front of the
comment grows into it. But a slash that opens no regular expression
because of the comment could open one without it; a bracket in the
comment behind a backslash is what makes the difference.

- `IsComment`: the two forms of comments that end by themselves.
- `Replaces`, `replaces_comment`: white space in the place of a comment.
- `regexTail_none_replace`: what is no regular expression stays none.
- `munch_replace`, `significant_replace`: the tokens in front.
-/
import SchemaAtlas.Proofs.Token.Extension
import SchemaAtlas.Proofs.Token.Spelling
import SchemaAtlas.Proofs.Token.Trim

namespace SchemaAtlas

namespace Text

-- ==================================================== writing over

/-- The white space that takes the place of a character. -/
def blankFor (c : Char) : Char :=
  if c = '\n' then c else ' '

/-- The text with white space for every character. -/
def blanked (t : Text) : Text :=
  t.map blankFor

theorem isAllBlank_blanked (t : Text) : isAllBlank (blanked t) = true := by
  rw [isAllBlank, List.all_eq_true]
  intro c hc
  obtain ⟨d, -, rfl⟩ := List.mem_map.1 hc
  unfold blankFor
  split
  · next hd => rw [hd]; decide
  · decide

theorem width_blanked_le (t : Text) : width (blanked t) ≤ width t := by
  induction t with
  | nil => exact Nat.le_refl 0
  | cons c t ih =>
      have hc : (blankFor c).utf8Size ≤ c.utf8Size := by
        unfold blankFor
        split
        · exact Nat.le_refl _
        · exact c.utf8Size_pos
      exact Nat.add_le_add hc ih

end Text

-- ==================================================== comments

/-- A comment that ends by itself: with its line or with `*/`. -/
def Token.isWholeComment : Token → Bool
  | .lineComment _ => true
  | .blockComment closed => closed
  | _ => false

theorem Token.isTrivia_of_isWholeComment {t : Token} (h : t.isWholeComment = true) :
    t.isTrivia = true := by
  unfold isWholeComment at h
  split at h
  · rfl
  · rfl
  · cases h

/-- The text `l` in front of `q` is a comment that ends by itself. -/
def IsComment (l q : Text) : Prop :=
  (∃ line, l = '/' :: '/' :: line ∧ (q = [] ∨ ∃ r, q = '\n' :: r))
    ∨ ∃ body, l = '/' :: '*' :: (body ++ ['*', '/'])

/-- Behind a line comment the line ends. -/
theorem line_end (t : Text) :
    t.dropWhile (· ≠ '\n') = [] ∨ ∃ r, t.dropWhile (· ≠ '\n') = '\n' :: r := by
  have hhead := List.head?_dropWhile_not (fun c : Char => decide (c ≠ '\n')) t
  cases hdrop : t.dropWhile (· ≠ '\n') with
  | nil => exact Or.inl rfl
  | cons c r =>
      rw [hdrop] at hhead
      have hc : c = '\n' := by simpa using hhead
      exact Or.inr ⟨r, by rw [hc]⟩

theorem munchSlash_isComment {r : Text} (h : (munchSlash r).token.isWholeComment = true) :
    IsComment (munchSlash r).lexeme (munchSlash r).rest := by
  cases r with
  | nil => cases h
  | cons c r =>
      by_cases hslash : c = '/'
      · subst hslash
        exact Or.inl ⟨_, rfl, line_end r⟩
      · by_cases hstar : c = '*'
        · subst hstar
          obtain ⟨body, hbody⟩ := commentTail_closed h
          exact Or.inr ⟨body, congrArg ('/' :: '*' :: ·) hbody⟩
        · rw [munchSlash_of_ne hslash hstar] at h
          cases h

theorem munch_isComment {b : Bool} {c : Char} {r : Text}
    (h : (munch b c r).token.isWholeComment = true) :
    IsComment (munch b c r).lexeme (munch b c r).rest := by
  unfold munch at h ⊢
  split at h
  · cases h
  · by_cases hslash : c = '/'
    · unfold munchPlain at h ⊢
      rw [if_pos hslash] at h ⊢
      exact munchSlash_isComment h
    · -- a comment begins with a slash, and its first character is `c`
      have hspelled := munchPlain_isSpelled c r
      have happend := munchPlain_append c r
      obtain ⟨l, hl⟩ : ∃ l, (munchPlain c r).lexeme = '/' :: l := by
        unfold Token.isWholeComment at h
        split at h
        · next text htoken =>
            rw [htoken] at hspelled
            exact ⟨_, hspelled⟩
        · next closed htoken =>
            rw [htoken] at hspelled
            obtain ⟨s, hs⟩ := hspelled
            exact ⟨_, hs⟩
        · cases h
      rw [hl] at happend
      exact absurd (List.cons.inj happend).1.symm hslash

-- ==================================================== regular expressions

/-- No expression goes on behind a comment in a way in which it would
not without: it has to be in a character class there, and it was in one
or a bracket in the comment opened one. -/
theorem regexTail_comment {b : Bool} {l q : Text}
    (h : regexTail b (l ++ '*' :: '/' :: q) = none) :
    '\n' ∈ l ∨ regexTail true q = none ∧ (b = true ∨ '[' ∈ l) := by
  induction b, l using regexTail.induct with
  | case1 b =>
      cases b with
      | true =>
          rw [List.nil_append, regexTail_cons (by decide), if_pos rfl, Option.map_eq_none_iff,
            regexTail_cons (by decide), if_pos (by decide), Option.map_eq_none_iff] at h
          exact Or.inr ⟨h, Or.inl rfl⟩
      | false =>
          simp [regexTail] at h
  | case2 => exact Or.inl (by simp)
  | case3 b c r hc ih =>
      rw [List.cons_append, List.cons_append, regexTail, if_neg hc, Option.map_eq_none_iff] at h
      rcases ih h with hline | ⟨hq, hb⟩
      · exact Or.inl (by simp [hline])
      · exact Or.inr ⟨hq, hb.imp_right (by simp +contextual)⟩
  | case4 b c r hesc hc =>
      by_cases hline : c = '\n'
      · exact Or.inl (by simp [hline])
      · obtain rfl : c = '\\' := by simpa [hline] using hc
        cases r with
        | cons d s => exact (hesc d s rfl rfl).elim
        | nil =>
            -- the backslash takes the star, so the slash still has to be passed
            rw [List.cons_append, List.nil_append, regexTail, if_neg (by decide),
              Option.map_eq_none_iff] at h
            cases b with
            | true =>
                rw [regexTail_cons (by decide), if_pos rfl, Option.map_eq_none_iff] at h
                exact Or.inr ⟨h, Or.inl rfl⟩
            | false => simp [regexTail] at h
  | case5 c r hesc hc ih =>
      rw [List.cons_append, regexTail_cons hc, if_pos rfl, Option.map_eq_none_iff] at h
      rcases ih h with hline | ⟨hq, -⟩
      · exact Or.inl (List.mem_cons_of_mem c hline)
      · exact Or.inr ⟨hq, Or.inl rfl⟩
  | case6 b r hclass hesc hc =>
      rw [List.cons_append, regexTail_cons hc, if_neg hclass, if_pos rfl] at h
      cases h
  | case7 b c r hesc hc hclass hslash ih =>
      rw [List.cons_append, regexTail_cons hc, if_neg hclass, if_neg hslash,
        Option.map_eq_none_iff] at h
      rcases ih h with hline | ⟨hq, hopen⟩
      · exact Or.inl (List.mem_cons_of_mem c hline)
      · refine Or.inr ⟨hq, Or.inr ?_⟩
        rcases hopen with hbracket | hmem
        · rw [of_decide_eq_true hbracket]
          exact List.mem_cons_self
        · exact List.mem_cons_of_mem c hmem

/-- White space in front changes nothing, unless it holds a line break,
at which no expression goes on. -/
theorem regexTail_blanked {b : Bool} {l q : Text} (h : '\n' ∈ l ∨ regexTail b q = none) :
    regexTail b (Text.blanked l ++ q) = none := by
  induction l with
  | nil =>
      rcases h with h | h
      · cases h
      · exact h
  | cons c l ih =>
      show regexTail b (Text.blankFor c :: (Text.blanked l ++ q)) = none
      by_cases hline : c = '\n'
      · rw [Text.blankFor, if_pos hline, hline]
        simp [regexTail]
      · have hl := ih (h.imp_left fun hmem => (List.mem_cons.1 hmem).resolve_left (Ne.symm hline))
        rw [Text.blankFor, if_neg hline, regexTail_cons (by decide)]
        cases b with
        | true => rw [if_pos rfl, show decide (' ' ≠ ']') = true from rfl, hl]; rfl
        | false =>
            rw [if_neg Bool.false_ne_true, if_neg (by decide),
              show decide (' ' = '[') = false from rfl, hl]
            rfl

-- ==================================================== replacement

/-- Behind other tokens the white space `w'` may stand in the place of
`w`, which begins with a comment. -/
structure Replaces (w' w : Text) : Prop where
  begins : ∃ c x, w = '/' :: c :: x
  blank : ∃ x, w' = ' ' :: x
  /-- An expression that does not end from within a character class does
  not without the comment. -/
  inClass : regexTail true w = none → regexTail true w' = none

/-- The same for an expression whose last backslash takes the first
character. -/
def ReplacesEscaped (w' w : Text) : Prop :=
  ∀ b, regexTail b w.tail = none → regexTail b w'.tail = none

theorem replaces_comment {l q : Text} (h : IsComment l q) :
    Replaces (Text.blanked l ++ q) (l ++ q)
      ∧ ('[' ∉ l → ReplacesEscaped (Text.blanked l ++ q) (l ++ q)) := by
  rcases h with ⟨line, rfl, hq⟩ | ⟨body, rfl⟩
  · -- no expression goes on at the end of the line
    have hnone : ∀ b, regexTail b q = none := by
      intro b
      rcases hq with rfl | ⟨r, rfl⟩
      · rfl
      · simp [regexTail]
    refine ⟨⟨⟨_, _, rfl⟩, ⟨_, rfl⟩, fun _ => regexTail_blanked (Or.inr (hnone true))⟩, ?_⟩
    intro _ b _
    exact regexTail_blanked (l := '/' :: line) (Or.inr (hnone b))
  · refine ⟨⟨⟨_, _, rfl⟩, ⟨_, rfl⟩, ?_⟩, ?_⟩
    · intro hnone
      have hwhole : '/' :: '*' :: (body ++ ['*', '/']) ++ q =
          ('/' :: '*' :: body) ++ '*' :: '/' :: q := by simp
      rw [hwhole] at hnone
      apply regexTail_blanked
      rcases regexTail_comment hnone with hline | ⟨hq, -⟩
      · exact Or.inl (by simpa using hline)
      · exact Or.inr hq
    · intro hbracket b hnone
      have htail : ('/' :: '*' :: (body ++ ['*', '/']) ++ q).tail =
          ('*' :: body) ++ '*' :: '/' :: q := by simp
      rw [htail] at hnone
      apply regexTail_blanked (l := '*' :: (body ++ ['*', '/']))
      rcases regexTail_comment hnone with hline | ⟨hq, hopen⟩
      · exact Or.inl (by simpa using hline)
      · right
        rcases hopen with rfl | hmem
        · exact hq
        · exact absurd (by simpa using hmem) hbracket

theorem getLast?_cons_of_tail {c d : Char} {t : Text} (h : t.getLast? = some d) :
    (c :: t).getLast? = some d := by
  rw [List.getLast?_cons, h]
  rfl

section

variable {w w' : Text} (hw : Replaces w' w)
include hw

theorem Replaces.not_head {f : Char → Bool} (h : f ' ' = false) : ∀ c ∈ w'.head?, f c = false := by
  obtain ⟨x, rfl⟩ := hw.blank
  intro c hc
  cases hc
  exact h

/-- Where no expression ends, none does with the comment gone. -/
theorem regexTail_none_replace {b : Bool} {t : Text}
    (hesc : t.getLast? = some '\\' → ReplacesEscaped w' w) (h : regexTail b (t ++ w) = none) :
    regexTail b (t ++ w') = none := by
  induction b, t using regexTail.induct with
  | case1 b =>
      cases b with
      | true => exact hw.inClass h
      | false =>
          obtain ⟨c, x, rfl⟩ := hw.begins
          simp [regexTail] at h
  | case2 => simp [regexTail]
  | case3 b c r hc ih =>
      rw [List.cons_append, List.cons_append, regexTail, if_neg hc, Option.map_eq_none_iff] at h ⊢
      exact ih (fun hlast => hesc (getLast?_cons_of_tail (getLast?_cons_of_tail hlast))) h
  | case4 b c r hesc' hc =>
      by_cases hline : c = '\n'
      · subst hline
        simp [regexTail]
      · obtain rfl : c = '\\' := by simpa [hline] using hc
        cases r with
        | cons d s => exact (hesc' d s rfl rfl).elim
        | nil =>
            have hescaped := hesc rfl b
            obtain ⟨c, x, rfl⟩ := hw.begins
            obtain ⟨x', rfl⟩ := hw.blank
            rw [List.cons_append, List.nil_append, regexTail, if_neg (by decide),
              Option.map_eq_none_iff] at h ⊢
            exact hescaped h
  | case5 c r hesc' hc ih =>
      rw [List.cons_append, regexTail_cons hc, if_pos rfl, Option.map_eq_none_iff] at h ⊢
      exact ih (fun hlast => hesc (getLast?_cons_of_tail hlast)) h
  | case6 b r hclass hesc' hc =>
      rw [List.cons_append, regexTail_cons hc, if_neg hclass, if_pos rfl] at h
      cases h
  | case7 b c r hesc' hc hclass hslash ih =>
      rw [List.cons_append, regexTail_cons hc, if_neg hclass, if_neg hslash,
        Option.map_eq_none_iff] at h ⊢
      exact ih (fun hlast => hesc (getLast?_cons_of_tail hlast)) h

-- ==================================================== one token

variable {t p lexeme : Text} {token : Token}

/-- What is left in front of a comment goes on behind the white space. -/
theorem Replaces.ne_nil (p : Text) : p ++ w ≠ [] := by
  obtain ⟨c, x, rfl⟩ := hw.begins
  simp

/-- A slash directly in front of a comment would have begun it. -/
theorem munchSlash_ne_nil (h : munchSlash (t ++ w) = ⟨token, lexeme, p ++ w⟩) : t ≠ [] := by
  rintro rfl
  obtain ⟨c, x, rfl⟩ := hw.begins
  have hrest := congrArg (fun m => m.rest.length) h
  have hdrop := (List.dropWhile_suffix (l := c :: x) (fun c : Char => decide (c ≠ '\n'))).length_le
  change ((c :: x).dropWhile fun c => decide (c ≠ '\n')).length = _ at hrest
  rw [List.length_append, List.length_cons] at hrest
  omega

theorem munchSlash_replace (h : munchSlash (t ++ w) = ⟨token, lexeme, p ++ w⟩) :
    munchSlash (t ++ w') = ⟨token, lexeme, p ++ w'⟩ := by
  have hcut := munchSlash_cut h
  cases t with
  | nil => exact absurd rfl (munchSlash_ne_nil hw h)
  | cons c r =>
      by_cases hslash : c = '/'
      · subst hslash
        obtain ⟨rfl, rfl, rfl⟩ := Munch.mk.inj hcut
        -- the line ends before the comment begins
        have hend : r.dropWhile (· ≠ '\n') ≠ [] := by
          intro hnil
          obtain ⟨-, -, hrest⟩ := Munch.mk.inj h
          rw [hnil, List.nil_append] at hrest
          obtain ⟨c, x, rfl⟩ := hw.begins
          rcases line_end (r ++ '/' :: c :: x) with hend | ⟨s, hend⟩
          · rw [List.append_eq, hend] at hrest
            cases hrest
          · rw [List.append_eq, hend] at hrest
            cases hrest
        obtain ⟨htake, hdrop⟩ := span_extend (w := w') (Or.inl hend)
        rw [List.cons_append, munchSlash, htake, hdrop]
      · by_cases hstar : c = '*'
        · subst hstar
          obtain ⟨rfl, rfl, rfl⟩ := Munch.mk.inj hcut
          have hclosed : (commentTail r).2.1 = true := by
            cases hopen : (commentTail r).2.1 with
            | true => rfl
            | false =>
                obtain ⟨htoken, -, hrest⟩ := Munch.mk.inj h
                rw [hopen] at htoken
                have hnil := commentTail_open (Token.blockComment.inj htoken)
                exact absurd (hrest.symm.trans hnil) (hw.ne_nil _)
          have hextend := commentTail_extend (Prod.ext rfl (Prod.ext hclosed rfl)) w'
          rw [List.cons_append, munchSlash, hextend, hclosed]
        · rw [munchSlash_of_ne hslash hstar] at hcut
          obtain ⟨rfl, rfl, rfl⟩ := Munch.mk.inj hcut
          exact munchSlash_of_ne hslash hstar _

theorem munchString_replace {quote : Char} (hquote : isQuote quote = true)
    (h : munchString quote (t ++ w) = ⟨token, lexeme, p ++ w⟩) :
    munchString quote (t ++ w') = ⟨token, lexeme, p ++ w'⟩ := by
  have hcut := munchString_cut h
  obtain ⟨rfl, rfl, rfl⟩ := Munch.mk.inj hcut
  have hplain : quote ≠ '\\' := by
    rintro rfl
    cases hquote
  have hend : (stringTail quote t).2.1 = false → ∃ r, (stringTail quote t).2.2 = '\n' :: r := by
    intro hopen
    obtain ⟨htoken, -, hrest⟩ := Munch.mk.inj h
    have hwhole : (stringTail quote (t ++ w)).2.1 = false := by
      rw [← hopen]
      exact (Token.string.inj htoken).2.2
    -- only a line break can be in front of the comment
    obtain ⟨c, x, rfl⟩ := hw.begins
    rcases stringTail_open hwhole with hnil | hslash | ⟨r, hline⟩
    · rw [hnil] at hrest
      exact absurd hrest.symm (by simp)
    · rw [hslash] at hrest
      have hlength := congrArg List.length hrest
      simp only [List.length_append, List.length_cons, List.length_nil] at hlength
      omega
    · rw [hline] at hrest
      cases hp : (stringTail quote t).2.2 with
      | nil => rw [hp] at hrest; cases hrest
      | cons d s =>
          rw [hp] at hrest
          obtain ⟨rfl, -⟩ := List.cons.inj hrest
          exact ⟨s, rfl⟩
  have hextend := stringTail_extend hplain (Prod.ext rfl (Prod.ext rfl rfl)) hend w'
  rw [munchString, hextend]

theorem fractionTail_replace (t : Text) :
    fractionTail (t ++ w') = ((fractionTail t).1, (fractionTail t).2 ++ w') := by
  rcases fractionTail_cases t with hnone | ⟨d, r, rfl, hd, hsome⟩
  · rcases fractionTail_cases (t ++ w') with hnone' | ⟨d, r, ht, hd, -⟩
    · rw [hnone, hnone']
    · -- the blank is no digit, so point and digit stand in `t`
      obtain ⟨x, rfl⟩ := hw.blank
      match t with
      | [] => cases ht
      | [c] =>
          obtain ⟨-, ht⟩ := List.cons.inj ht
          obtain ⟨rfl, -⟩ := List.cons.inj ht
          cases hd
      | c :: e :: s =>
          obtain ⟨hc, htail⟩ := List.cons.inj ht
          obtain ⟨rfl, -⟩ := List.cons.inj htail
          simp [fractionTail, hc, hd] at hnone
  · obtain ⟨htake, hdrop⟩ := span_extend (f := Text.isDigit) (r := r) (Or.inr (hw.not_head rfl))
    rw [hsome, List.cons_append, List.cons_append, fractionTail, if_pos hd, htake, hdrop]

theorem munchNumber_replace {c : Char} (h : munchNumber c (t ++ w) = ⟨token, lexeme, p ++ w⟩) :
    munchNumber c (t ++ w') = ⟨token, lexeme, p ++ w'⟩ := by
  obtain ⟨rfl, rfl, rfl⟩ := Munch.mk.inj (munchNumber_cut h)
  obtain ⟨htake, hdrop⟩ := span_extend (f := Text.isDigit) (r := t) (Or.inr (hw.not_head rfl))
  simp only [munchNumber, htake, hdrop, fractionTail_replace hw]

theorem munchPlain_replace {c : Char} (hspace : token = .space → p ≠ [])
    (h : munchPlain c (t ++ w) = ⟨token, lexeme, p ++ w⟩) :
    munchPlain c (t ++ w') = ⟨token, lexeme, p ++ w'⟩ := by
  have hcut := munchPlain_cut h
  unfold munchPlain at h hcut ⊢
  by_cases hslash : c = '/'
  · rw [if_pos hslash] at h ⊢
    exact munchSlash_replace hw h
  rw [if_neg hslash] at h hcut ⊢
  by_cases hquote : isQuote c = true
  · rw [if_pos hquote] at h ⊢
    exact munchString_replace hw hquote h
  rw [if_neg hquote] at h hcut ⊢
  by_cases hdigit : Text.isDigit c = true
  · rw [if_pos hdigit] at h ⊢
    exact munchNumber_replace hw h
  rw [if_neg hdigit] at hcut ⊢
  by_cases hword : beginsWord c = true
  · rw [if_pos hword] at hcut ⊢
    obtain ⟨rfl, rfl, rfl⟩ := Munch.mk.inj hcut
    obtain ⟨htake, hdrop⟩ := span_extend (f := continuesWord) (r := t)
      (Or.inr (hw.not_head (by decide)))
    rw [htake, hdrop]
  rw [if_neg hword] at hcut ⊢
  cases hmark : Mark.ofChar? c with
  | some m =>
      rw [hmark] at hcut
      obtain ⟨rfl, rfl, rfl⟩ := Munch.mk.inj hcut
      rfl
  | none =>
      rw [hmark] at hcut
      simp only at hcut ⊢
      by_cases hline : c = '\n'
      · rw [if_pos hline] at hcut ⊢
        obtain ⟨rfl, rfl, rfl⟩ := Munch.mk.inj hcut
        rfl
      rw [if_neg hline] at hcut ⊢
      by_cases hblank : Text.isBlank c = true
      · rw [if_pos hblank] at hcut ⊢
        obtain ⟨rfl, rfl, rfl⟩ := Munch.mk.inj hcut
        obtain ⟨htake, hdrop⟩ := span_extend (w := w') (Or.inl (hspace rfl))
        rw [htake, hdrop]
      · rw [if_neg hblank] at hcut ⊢
        obtain ⟨rfl, rfl, rfl⟩ := Munch.mk.inj hcut
        rfl

theorem regexBody_extend {u : Text} (h : regexBody t = some (u, p)) :
    regexBody (t ++ w') = some (u, p ++ w') := by
  cases t with
  | nil => cases h
  | cons c r =>
      rw [List.cons_append, regexBody]
      rw [regexBody] at h
      split at h
      · cases h
      · next hc =>
          obtain ⟨⟨u', v⟩, hr, hu⟩ := Option.map_eq_some_iff.1 h
          cases hu
          obtain ⟨htake, hdrop⟩ := span_extend (f := Text.isAsciiLetter) (r := v)
            (Or.inr (hw.not_head (by decide)))
          rw [if_neg hc, ← List.cons_append, ← regexTail_append hr, List.append_assoc,
            regexTail_congr hr, Option.map_some, htake, hdrop]

theorem regexBody_none_replace (ht : t ≠ [])
    (hesc : t.getLast? = some '\\' → ReplacesEscaped w' w) (h : regexBody (t ++ w) = none) :
    regexBody (t ++ w') = none := by
  cases t with
  | nil => exact absurd rfl ht
  | cons c r =>
      rw [List.cons_append, regexBody] at h ⊢
      by_cases hc : (c = '/' || c = '*') = true
      · rw [if_pos hc]
      · rw [if_neg hc, Option.map_eq_none_iff] at h ⊢
        exact regexTail_none_replace hw hesc h

/-- A token in front of a comment is read the same in front of white
space, unless it is itself white space up to the comment. -/
theorem munch_replace {b : Bool} {c : Char} (hspace : token = .space → p ≠ [])
    (hesc : (c :: t).getLast? = some '\\' → ReplacesEscaped w' w)
    (h : munch b c (t ++ w) = ⟨token, lexeme, p ++ w⟩) :
    munch b c (t ++ w') = ⟨token, lexeme, p ++ w'⟩ := by
  unfold munch at h ⊢
  by_cases hslash : (b && c = '/') = true
  · rw [if_pos hslash] at h ⊢
    cases hwhole : regexBody (t ++ w) with
    | some u =>
        rw [hwhole] at h
        obtain ⟨rfl, rfl, hp⟩ := Munch.mk.inj h
        have hpart := regexBody_cut (hwhole.trans (congrArg some (Prod.ext rfl hp)))
        rw [regexBody_extend hw hpart]
    | none =>
        rw [hwhole] at h
        have hc : c = '/' := by simpa using (Bool.and_eq_true_iff.1 hslash).2
        subst hc
        have ht : t ≠ [] := munchSlash_ne_nil hw h
        rw [regexBody_none_replace hw ht (fun hlast => hesc (getLast?_cons_of_tail hlast)) hwhole]
        exact munchPlain_replace hw hspace h
  · rw [if_neg hslash] at h ⊢
    exact munchPlain_replace hw hspace h

-- ==================================================== all tokens

omit hw in
/-- White space in front of a text only moves its significant tokens. -/
theorem significant_blank_append {z : Text} (hz : z.isAllBlank = true) (b : Bool) (start : Nat)
    (t : Text) :
    significant (tokensFrom b start (z ++ t)) = significant (tokensFrom b (start + z.width) t) := by
  have hblank : ∀ c ∈ z, Text.isBlank c = true := List.all_eq_true.1 hz
  rw [significant_trimStart, significant_trimStart b (start + z.width) t, Text.trimStart,
    Text.trimStart, List.takeWhile_append_of_pos hblank, List.dropWhile_append_of_pos hblank,
    Text.width_append, Nat.add_assoc]

omit hw in
/-- A token that ends in front of `w` takes off the same characters
without it. -/
theorem lexeme_of_span {b : Bool} {start : Nat} {c : Char} {r : Text}
    (h : Span.of start (start + (munch b c (r ++ w)).lexeme.width) =
      Span.of start (start + (munch b c r).lexeme.width)) :
    (munch b c (r ++ w)).lexeme = (munch b c r).lexeme
      ∧ (munch b c (r ++ w)).rest = (munch b c r).rest ++ w := by
  have hwidth : (munch b c (r ++ w)).lexeme.width = (munch b c r).lexeme.width := by
    have hstop := congrArg Span.stop h
    simp only [Span.stop_of] at hstop
    omega
  have hwhole := Text.cut_width_append (munch b c (r ++ w)).lexeme (munch b c (r ++ w)).rest
  have hpart := Text.cut_width_append (munch b c r).lexeme ((munch b c r).rest ++ w)
  rw [munch_append, hwidth] at hwhole
  rw [← List.append_assoc, munch_append, List.cons_append, hwhole] at hpart
  exact Prod.mk.inj hpart

/-- The tokens in front of a comment keep their places in front of white
space. -/
theorem significant_replace {b : Bool} {start : Nat} {p : Text} {vs : List PlacedToken}
    (hesc : p.getLast? = some '\\' → ReplacesEscaped w' w)
    (h : tokensFrom b start (p ++ w) = tokensFrom b start p ++ vs) :
    significant (tokensFrom b start (p ++ w')) =
      significant (tokensFrom b start p) ++
        significant (tokensFrom (regexBehind b (tokensFrom b start p)) (start + p.width) w') := by
  fun_induction tokensFrom b start p generalizing vs with
  | case1 => rfl
  | case2 b start c r m =>
      rename_i ih
      rw [List.cons_append, tokensFrom] at h
      obtain ⟨hfirst, hlater⟩ := List.cons.inj h
      obtain ⟨htoken, hspan⟩ := PlacedToken.mk.inj hfirst
      obtain ⟨hlexeme, hrest⟩ := lexeme_of_span hspan
      rw [htoken, hlexeme, hrest] at hlater
      have happend : m.lexeme ++ m.rest = c :: r := munch_append b c r
      have hwidth : start + m.lexeme.width + m.rest.width = start + Text.width (c :: r) := by
        rw [← happend, Text.width_append, Nat.add_assoc]
      by_cases hspace : m.token = .space ∧ m.rest = []
      · -- white space up to the comment goes on in the white space
        obtain ⟨hblank, hnil⟩ := hspace
        have hspelled : m.token.IsSpelled m.lexeme := munch_isSpelled b c r
        rw [hblank] at hspelled
        rw [hnil, List.append_nil] at happend
        rw [hblank, hnil, tokensFrom, significant_trivia rfl, ← happend,
          significant_blank_append hspelled]
        rfl
      · have hm : munch b c (r ++ w') = ⟨m.token, m.lexeme, m.rest ++ w'⟩ := by
          apply munch_replace hw (fun htoken hnil => hspace ⟨htoken, hnil⟩) hesc
          rw [← htoken, ← hlexeme, ← hrest]
        have hescRest : m.rest.getLast? = some '\\' → ReplacesEscaped w' w := by
          intro hlast
          apply hesc
          rw [← happend, List.getLast?_append, hlast]
          rfl
        rw [List.cons_append, tokensFrom, hm, significant_cons, significant_cons,
          ih hescRest hlater, hwidth]
        cases m.token.isTrivia <;> rfl

end

end SchemaAtlas
