/-
References of trimmed definitions. A definition is read without the white
space around it. At its end this can change what is left open there: a
literal loses blanks, or the blank that its last backslash took. The
rules make nothing of either, so the reference is the same.

- `alike_trimEnd`, `alike_trim`: trimmed definitions.
-/
import SchemaAtlas.Proofs.Reference
import SchemaAtlas.Proofs.Token.Extension
import SchemaAtlas.Proofs.Token.Trim

namespace SchemaAtlas

-- ==================================================== left open

section

open Text

variable {b : Bool} {start : Nat}

theorem trimEnd_plain_append {p : Text} (hp : EndsPlain p) (s : Text) :
    trimEnd (p ++ s) = p ++ trimEnd s := by
  rw [trimEnd_append]
  split
  · next hblank =>
      have hnil : trimEnd s = [] := by
        have hall := trimEnd_append [] s
        rwa [hblank, if_pos rfl] at hall
      rw [hp.trimEnd_eq, hnil, List.append_nil]
  · rfl

/-- A block comment left open is left open without the white space at its
end. -/
theorem significant_openComment {s : Text} (h : (commentTail s).2.1 = false) (b : Bool)
    (start : Nat) : significant (tokensFrom b start (trimEnd ('/' :: '*' :: s))) = [] := by
  obtain ⟨z, -, hz⟩ := exists_trimEnd s
  have hopen : (commentTail (trimEnd s)).2.1 = false := by
    cases hclosed : (commentTail (trimEnd s)).2.1 with
    | false => rfl
    | true =>
        have hextend := commentTail_extend (Prod.ext rfl (Prod.ext hclosed rfl)) z
        rw [← hz] at hextend
        rw [hextend] at h
        cases h
  have hplain : EndsPlain (['/'] ++ ['*']) := EndsPlain.append_left ['/'] (.singleton (by decide))
  have htrim := trimEnd_plain_append hplain s
  rw [show '/' :: '*' :: s = ['/'] ++ ['*'] ++ s from rfl, htrim]
  show significant (tokensFrom b start ('/' :: '*' :: trimEnd s)) = []
  rw [tokensFrom, munch_star, significant_trivia rfl, commentTail_open hopen, tokensFrom]
  rfl

/-- A literal left open tells the rules nothing, and neither does what it
is read as without the white space at its end: without a blank behind it
a backslash is a character of its own. -/
theorem inert_openString {quote : Char} (hquote : isQuote quote = true) {r : Text}
    (hopen : (stringTail quote r).2.1 = false) (hrest : isAllBlank (stringTail quote r).2.2 = true)
    (b : Bool) (start : Nat) :
    ∀ x ∈ significant (tokensFrom b start (trimEnd (quote :: r))), x.token.isInert = true := by
  have hblank := isBlank_of_isQuote hquote
  have htrim : trimEnd (quote :: r) = quote :: trimEnd r :=
    trimEnd_plain_append (.singleton hblank) r
  obtain ⟨z, hz, hr⟩ := exists_trimEnd r
  have hplain : quote ≠ '\\' := by
    rintro rfl
    cases hquote
  rcases hkept : stringTail quote (trimEnd r) with ⟨u, closed, p⟩
  -- closed or ended by a line break, it would be the same with the white space
  have hextend : (closed = false → ∃ s, p = '\n' :: s) →
      stringTail quote r = (u, closed, p ++ z) := by
    intro hend
    have hwhole := stringTail_extend hplain hkept hend z
    rwa [← hr] at hwhole
  have hclosed : closed = false := by
    cases closed with
    | false => rfl
    | true =>
        rw [hextend (fun h => by cases h)] at hopen
        cases hopen
  subst hclosed
  have hbehind : ∀ x ∈ significant
      (tokensFrom (Token.regexAfter (.string (String.ofList u) quote false) b)
        (start + Text.width (quote :: u ++ [])) p), x.token.isInert = true := by
    have hopen : (stringTail quote (trimEnd r)).2.1 = false := by rw [hkept]
    have hp := stringTail_open hopen
    rw [hkept] at hp
    rcases hp with rfl | rfl | ⟨s, rfl⟩
    · rw [tokensFrom]
      exact List.forall_mem_nil _
    · have hm : ∀ b, munch b '\\' [] = ⟨.other '\\', ['\\'], []⟩ := by
        intro b
        cases b <;> rfl
      rw [tokensFrom, hm, tokensFrom]
      exact List.forall_mem_singleton.2 rfl
    · rw [hextend fun _ => ⟨s, rfl⟩] at hrest
      have hline : isAllBlank ('\n' :: s) = true := by
        rw [isAllBlank, List.all_append] at hrest
        exact (Bool.and_eq_true_iff.1 hrest).1
      rw [(tokensFrom_of_isAllBlank hline _ _).1]
      exact List.forall_mem_nil _
  rw [htrim, tokensFrom, munch_quote hquote, munchString, hkept]
  exact List.forall_mem_cons.2 ⟨rfl, hbehind⟩

/-- The last token of a definition, and what it is without the white space
behind it. -/
theorem alike_last {c : Char} {r lexeme rest : Text} {token : Token}
    (hm : munch b c r = ⟨token, lexeme, rest⟩) (hrest : rest.isAllBlank = true) :
    Alike (significant [⟨token, Span.of start (start + lexeme.width)⟩])
      (significant (tokensFrom b start (trimEnd (c :: r)))) := by
  cases hopen : PlacedToken.warning? ⟨token, Span.of start (start + lexeme.width)⟩ with
  | none =>
      rw [significant_last hm hrest hopen]
      exact .refl _
  | some w =>
      have hwarning : PlacedToken.warning?
          ⟨(munch b c r).token, Span.of start (start + lexeme.width)⟩ ≠ none := by
        rw [hm, hopen]
        exact Option.some_ne_none w
      rcases munch_open hwarning with hquote | ⟨rfl, s, rfl⟩
      · rw [munch_quote hquote] at hm
        obtain ⟨rfl, rfl, rfl⟩ := Munch.mk.inj hm
        have hunclosed : (stringTail c r).2.1 = false := by
          cases hclosed : (stringTail c r).2.1 with
          | false => rfl
          | true =>
              rw [hclosed] at hopen
              cases hopen
        refine .inert ?_ (inert_openString hquote hunclosed hrest b start)
        rw [hunclosed]
        exact List.forall_mem_cons.2 ⟨rfl, List.forall_mem_nil _⟩
      · rw [munch_star] at hm
        obtain ⟨rfl, rfl, rfl⟩ := Munch.mk.inj hm
        have hunclosed : (commentTail s).2.1 = false := by
          cases hclosed : (commentTail s).2.1 with
          | false => rfl
          | true =>
              rw [hclosed] at hopen
              cases hopen
        rw [significant_openComment hunclosed]
        exact .refl []

/-- Trimming the end of a definition leaves it alike. -/
theorem alike_trimEnd (b : Bool) (start : Nat) (t : Text) :
    Alike (significant (tokensFrom b start t)) (significant (tokensFrom b start (trimEnd t))) := by
  fun_induction tokensFrom b start t with
  | case1 =>
      show Alike _ (significant (tokensFrom _ _ []))
      rw [tokensFrom]
      exact .refl _
  | case2 b start c r m ih =>
      by_cases hrest : m.rest.isAllBlank = true
      · have hm : munch b c r = ⟨m.token, m.lexeme, m.rest⟩ := rfl
        have hlast : Alike (significant [⟨m.token, Span.of start (start + m.lexeme.width)⟩])
            (significant (tokensFrom b start (trimEnd (c :: r)))) := alike_last hm hrest
        have hall := (tokensFrom_of_isAllBlank hrest (m.token.regexAfter b)
          (start + m.lexeme.width)).1
        rw [significant_cons] at hlast ⊢
        rw [hall]
        exact hlast
      · obtain ⟨l, htrim, hm⟩ := munch_trimEnd hrest
        rw [htrim, tokensFrom, hm, significant_cons, significant_cons]
        cases htrivia : m.token.isTrivia with
        | true => exact ih
        | false => exact .cons rfl ih

/-- A definition read where it stands is alike the trimmed definition read
alone. -/
theorem alike_trim (start : Nat) (t : Text) :
    Alike (significant (tokensFrom true start t)) (significant (tokenize (trim t))) := by
  have hmove := tokensFrom_shift true 0 (start + Text.width (t.takeWhile isBlank)) (trim t)
  have halike := alike_trimEnd true (start + Text.width (t.takeWhile isBlank)) (trimStart t)
  rw [← significant_trimStart] at halike
  apply halike.right
  rw [← trim, ← Nat.zero_add (start + _), hmove, significant_map (f := (·.shift _)) fun _ => rfl,
    List.map_map]
  rfl

end

end SchemaAtlas
