/-
What tokens hold. A literal holds the quote that closes it only behind a
backslash, and so a line break if it stands between quotes; a block
comment ends with the first star and slash behind its opening, and one
that is left open has none; comments to the end of the line and regular
expressions stay on one line.

- `Text.unescaped`: the characters of a content that stand for
  themselves.
- `Token.IsConfined`: what the characters of a token can hold.
- `munch_isConfined`: tokens as the lexer takes them.
-/
import SchemaAtlas.Proofs.Token.Spelling

namespace SchemaAtlas

namespace Text

/-- The characters of a text but for backslashes that escape a character
and the characters that they escape. -/
def unescaped : Text → Text
  | [] => []
  | '\\' :: _ :: r => unescaped r
  | c :: r => c :: unescaped r

theorem unescaped_cons {c : Char} (h : c ≠ '\\') (r : Text) :
    unescaped (c :: r) = c :: unescaped r := by
  rw [unescaped]
  exact fun _ _ hc => absurd hc h

end Text

open Text (unescaped)

-- ==================================================== literals

/-- Behind a quote the lexer takes no unescaped quote, and no unescaped
line break but in a template. -/
theorem unescaped_stringTail (quote : Char) (t : Text) :
    ∀ c ∈ unescaped (stringTail quote t).1, c ≠ quote ∧ (c = '\n' → quote = '\x60') := by
  induction t using stringTail.induct quote with
  | case1 => exact List.forall_mem_nil _
  | case2 c r ih => exact ih
  | case3 r hesc =>
      rw [stringTail_cons hesc, if_pos rfl]
      exact List.forall_mem_nil _
  | case4 c r hesc hquote hstop =>
      rw [stringTail_cons hesc, if_neg hquote, if_pos hstop]
      exact List.forall_mem_nil _
  | case5 c r hesc hquote hstop ih =>
      obtain ⟨hplain, hline⟩ : c ≠ '\\' ∧ (c = '\n' → quote = '\x60') := by
        simpa using hstop
      rw [stringTail_cons hesc, if_neg hquote, if_neg hstop, Text.unescaped_cons hplain]
      exact List.forall_mem_cons.2 ⟨⟨hquote, hline⟩, ih⟩

-- ==================================================== block comments

/-- The characters that end a block comment. -/
def commentEnd : Text :=
  ['*', '/']

/-- A character in front of a text makes up no end of a comment with
it. -/
theorem not_commentEnd_cons {c : Char} {l : Text} (h : ¬commentEnd <:+: l)
    (hstar : ∀ s, c = '*' → l = '/' :: s → False) : ¬commentEnd <:+: c :: l := by
  rw [List.infix_cons_iff]
  rintro (hfront | hlater)
  · obtain ⟨rfl, hl⟩ := List.cons_prefix_cons.1 hfront
    obtain ⟨s, hs⟩ := hl
    exact hstar s rfl hs.symm
  · exact h hlater

/-- A comment ends with the first end behind its opening. -/
theorem commentTail_first (t : Text) :
    if (commentTail t).2.1 then
      ∃ l, (commentTail t).1 = l ++ commentEnd ∧ ¬commentEnd <:+: l ++ ['*']
    else ¬commentEnd <:+: (commentTail t).1 := by
  induction t using commentTail.induct with
  | case1 =>
      rw [commentTail, if_neg Bool.false_ne_true]
      decide
  | case2 r =>
      rw [commentTail, if_pos rfl]
      exact ⟨[], rfl, by decide⟩
  | case3 c r hstar ih =>
      have happend := commentTail_append r
      rw [commentTail_cons hstar]
      cases hclosed : (commentTail r).2.1 with
      | true =>
          rw [hclosed, if_pos rfl] at ih
          obtain ⟨l, hl, hfirst⟩ := ih
          rw [if_pos rfl]
          refine ⟨c :: l, congrArg (c :: ·) hl, not_commentEnd_cons hfirst ?_⟩
          intro s hc hs
          -- the text behind the star would begin with the slash
          cases l with
          | nil => cases hs
          | cons d l =>
              obtain ⟨rfl, -⟩ := List.cons.inj hs
              rw [hl] at happend
              exact hstar _ hc happend.symm
      | false =>
          rw [hclosed, if_neg Bool.false_ne_true] at ih
          rw [if_neg Bool.false_ne_true]
          refine not_commentEnd_cons ih ?_
          intro s hc hs
          rw [hs] at happend
          exact hstar _ hc happend.symm

-- ==================================================== regular expressions

theorem IsRegexTail.newline_not_mem {inClass : Bool} {u : Text} (h : IsRegexTail inClass u) :
    '\n' ∉ u := by
  induction h with
  | close => decide
  | escape hline _ ih => simp [ih, Ne.symm hline]
  | inside _ hline _ ih => simp [ih, Ne.symm hline]
  | outside _ hline _ _ ih => simp [ih, Ne.symm hline]

/-- A regular expression with its flags stays on one line. -/
theorem newline_not_mem_regexBody {t : Text} {u : Text × Text} (h : regexBody t = some u) :
    '\n' ∉ u.1 := by
  cases t with
  | nil => cases h
  | cons c r =>
      rw [regexBody] at h
      split at h
      · cases h
      · obtain ⟨v, hv, rfl⟩ := Option.map_eq_some_iff.1 h
        intro hmem
        rcases List.mem_append.1 hmem with hmem | hmem
        · exact (isRegexTail_of_regexTail hv).newline_not_mem hmem
        · exact absurd (List.all_eq_true.1 List.all_takeWhile _ hmem) (by decide)

-- ==================================================== one token

/-- What the characters of a token can hold. -/
def Token.IsConfined (t : Token) (l : Text) : Prop :=
  match t with
  | .string content quote _ =>
      isQuote quote = true ∧ quote ∉ unescaped content.toList
        ∧ (quote ≠ '\x60' → '\n' ∉ unescaped content.toList)
  | .blockComment true =>
      ∃ r, l = '/' :: '*' :: (r ++ commentEnd) ∧ ¬commentEnd <:+: r ++ ['*']
  | .blockComment false => ∃ r, l = '/' :: '*' :: r ∧ ¬commentEnd <:+: r
  | .regex _ | .lineComment _ => '\n' ∉ l
  | .space => l.all isInlineBlank = true
  | _ => True

theorem wordToken_isConfined (word l : Text) : (wordToken word).IsConfined l := by
  rcases wordToken_cases word with ⟨k, hk⟩ | hk <;> rw [hk] <;> exact trivial

theorem munchSlash_isConfined (r : Text) :
    (munchSlash r).token.IsConfined (munchSlash r).lexeme := by
  fun_cases munchSlash r with
  | case1 r line =>
      show '\n' ∉ '/' :: '/' :: line
      have hline : '\n' ∉ line := by
        intro hmem
        exact absurd (List.all_eq_true.1 List.all_takeWhile _ hmem) (by decide)
      simp [hline]
  | case2 r t =>
      have hfirst := commentTail_first r
      show (Token.blockComment (commentTail r).2.1).IsConfined ('/' :: '*' :: (commentTail r).1)
      cases hclosed : (commentTail r).2.1 with
      | true =>
          rw [hclosed, if_pos rfl] at hfirst
          obtain ⟨l, hl, hl'⟩ := hfirst
          exact ⟨l, congrArg ('/' :: '*' :: ·) hl, hl'⟩
      | false =>
          rw [hclosed, if_neg Bool.false_ne_true] at hfirst
          exact ⟨_, rfl, hfirst⟩
  | case3 => exact trivial

theorem munchString_isConfined {quote : Char} (hquote : isQuote quote = true) (r : Text) :
    (munchString quote r).token.IsConfined (munchString quote r).lexeme := by
  have hcontent := unescaped_stringTail quote r
  show isQuote quote = true ∧ quote ∉ unescaped (String.ofList (stringTail quote r).1).toList
    ∧ (quote ≠ '\x60' → '\n' ∉ unescaped (String.ofList (stringTail quote r).1).toList)
  rw [String.toList_ofList]
  exact ⟨hquote, fun hmem => (hcontent quote hmem).1 rfl,
    fun htemplate hmem => htemplate ((hcontent '\n' hmem).2 rfl)⟩

theorem munchPlain_isConfined (c : Char) (r : Text) :
    (munchPlain c r).token.IsConfined (munchPlain c r).lexeme := by
  unfold munchPlain
  split
  · exact munchSlash_isConfined r
  split
  · next hquote => exact munchString_isConfined hquote r
  split
  · exact trivial
  split
  · exact wordToken_isConfined _ _
  split
  · exact trivial
  split
  · exact trivial
  split
  · next hline hblank =>
      show List.all (c :: r.takeWhile isInlineBlank) isInlineBlank = true
      rw [List.all_cons, isInlineBlank, hblank, List.all_takeWhile]
      simpa using hline
  · exact trivial

/-- What a token can hold that the lexer takes. -/
theorem munch_isConfined (b : Bool) (c : Char) (r : Text) :
    (munch b c r).token.IsConfined (munch b c r).lexeme := by
  unfold munch
  split
  · next t h =>
      split at h
      · next hslash =>
          have hc : c ≠ '\n' := by
            rintro rfl
            simp at hslash
          show '\n' ∉ c :: t.1
          simp [newline_not_mem_regexBody h, Ne.symm hc]
      · cases h
  · exact munchPlain_isConfined c r

end SchemaAtlas
