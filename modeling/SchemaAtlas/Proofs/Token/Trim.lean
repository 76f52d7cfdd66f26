/-
Trimming and tokens. White space at either end of a text is read as
tokens of its own, except behind a comment that runs to the end of the
text; so as long as nothing is left open, a trimmed text has the
significant tokens it had before.

- `endsWell_munch`: a token is a line comment, left open, or ends in a
  character that is not blank, unless it begins with a blank one.
- `significant_trimStart`, `significant_trimEnd`: trimming either end.
- `significant_trim`: both.
-/
import Mathlib.Data.List.TakeWhile
import SchemaAtlas.Proofs.Text.Classes
import SchemaAtlas.Proofs.Token.Locality

namespace SchemaAtlas

namespace Text

-- ==================================================== trimming

variable {s t : Text}

theorem trimStart_eq_nil : trimStart t = [] ↔ t.isAllBlank = true := by
  rw [trimStart, List.dropWhile_eq_nil_iff, isAllBlank, List.all_eq_true]

theorem trimStart_of_not_blank {c : Char} (hc : isBlank c = false) (t : Text) :
    trimStart (c :: t) = c :: t := by
  rw [trimStart, List.dropWhile_cons, hc, if_neg Bool.false_ne_true]

theorem trimEnd_append (s t : Text) :
    trimEnd (s ++ t) = if t.isAllBlank then trimEnd s else s ++ trimEnd t := by
  unfold trimEnd
  rw [List.reverse_append, List.dropWhile_append]
  have hblank : (t.reverse.dropWhile isBlank).isEmpty = t.isAllBlank := by
    rw [isAllBlank, ← List.all_reverse, Bool.eq_iff_iff, List.isEmpty_iff,
      List.dropWhile_eq_nil_iff, List.all_eq_true]
  rw [hblank]
  split
  · rfl
  · rw [List.reverse_append, List.reverse_reverse]

/-- The text ends in a character that is not blank. -/
def EndsPlain (t : Text) : Prop :=
  ∃ l d, t = l ++ [d] ∧ isBlank d = false

namespace EndsPlain

theorem singleton {c : Char} (hc : isBlank c = false) : EndsPlain [c] :=
  ⟨[], c, rfl, hc⟩

theorem append_left (s : Text) (h : EndsPlain t) : EndsPlain (s ++ t) := by
  obtain ⟨l, d, rfl, hd⟩ := h
  exact ⟨s ++ l, d, by rw [List.append_assoc], hd⟩

theorem append (h : EndsPlain s) (ht : ∀ c ∈ t, isBlank c = false) : EndsPlain (s ++ t) := by
  rcases List.eq_nil_or_concat t with rfl | ⟨l, d, rfl⟩
  · rwa [List.append_nil]
  · rw [List.concat_eq_append] at ht ⊢
    apply append_left s
    exact ⟨l, d, rfl, ht d (by simp)⟩

theorem trimEnd_eq (h : EndsPlain t) : trimEnd t = t := by
  obtain ⟨l, d, rfl, hd⟩ := h
  have hblank : isAllBlank [d] = false := by rw [isAllBlank, List.all_cons, hd]; rfl
  have htrim : trimEnd [d] = [d] := by simp [trimEnd, hd]
  rw [trimEnd_append, hblank, if_neg Bool.false_ne_true, htrim]

end EndsPlain

theorem exists_trimEnd (t : Text) : ∃ z, z.isAllBlank = true ∧ t = trimEnd t ++ z := by
  refine ⟨(t.reverse.takeWhile isBlank).reverse, ?_, ?_⟩
  · rw [isAllBlank, List.all_reverse]
    exact List.all_takeWhile
  · rw [trimEnd, ← List.reverse_append, List.takeWhile_append_dropWhile, List.reverse_reverse]

theorem isBlank_of_isDigit {c : Char} (h : isDigit c = true) : isBlank c = false := by
  apply isBlank_of_continuesWord
  simp [continuesWord, isNumeral, h]

theorem isBlank_of_isAsciiLetter {c : Char} (h : isAsciiLetter c = true) : isBlank c = false := by
  apply isBlank_of_continuesWord
  simp [continuesWord, isLetter, h]

theorem isBlank_of_isQuote {c : Char} (h : isQuote c = true) : isBlank c = false := by
  have hc : (c = '\'' ∨ c = '"') ∨ c = '\x60' := by simpa [isQuote] using h
  rcases hc with (rfl | rfl) | rfl <;> decide

theorem isBlank_of_mark {c : Char} {m : Mark} (h : Mark.ofChar? c = some m) :
    isBlank c = false := by
  unfold Mark.ofChar? at h
  have hm : m.char = c := by simpa using List.find?_some h
  rw [← hm]
  cases m <;> decide

end Text

-- ==================================================== ends of tokens

section

open Text

theorem IsRegexTail.endsPlain {inClass : Bool} {u : Text} (h : IsRegexTail inClass u) :
    EndsPlain u := by
  induction h with
  | close => exact .singleton (by decide)
  | @escape _ c _ _ _ ih => exact ih.append_left ['\\', c]
  | @inside c _ _ _ _ ih => exact ih.append_left [c]
  | @outside c _ _ _ _ _ ih => exact ih.append_left [c]

theorem endsPlain_regexBody {s u v : Text} (h : regexBody s = some (u, v)) : EndsPlain u := by
  cases s with
  | nil => cases h
  | cons c r =>
      rw [regexBody] at h
      split at h
      · cases h
      · obtain ⟨⟨u', v'⟩, hr, hu⟩ := Option.map_eq_some_iff.1 h
        cases hu
        apply (isRegexTail_of_regexTail hr).endsPlain.append
        intro d hd
        exact isBlank_of_isAsciiLetter (List.mem_takeWhile_imp hd)

theorem endsPlain_commentTail {t : Text} (h : (commentTail t).2.1 = true) :
    EndsPlain (commentTail t).1 := by
  induction t using commentTail.induct with
  | case1 => cases h
  | case2 r => exact ⟨['*'], '/', rfl, by decide⟩
  | case3 c r hstar ih =>
      rw [commentTail_cons hstar] at h ⊢
      exact (ih h).append_left [c]

theorem endsPlain_number {c : Char} (hc : isDigit c = true) (r : Text) :
    EndsPlain (munchNumber c r).lexeme := by
  have hwhole : EndsPlain (c :: r.takeWhile isDigit) := by
    apply (EndsPlain.singleton (isBlank_of_isDigit hc)).append
    intro d hd
    exact isBlank_of_isDigit (List.mem_takeWhile_imp hd)
  show EndsPlain (c :: r.takeWhile isDigit ++ (fractionTail (r.dropWhile isDigit)).1)
  apply hwhole.append
  intro d hd
  rcases fractionTail_cases (r.dropWhile isDigit) with hnone | ⟨e, r', -, he, hsome⟩
  · rw [hnone] at hd
    cases hd
  · rw [hsome] at hd
    rcases List.mem_cons.1 hd with rfl | hd
    · decide
    · rcases List.mem_cons.1 hd with rfl | hd
      · exact isBlank_of_isDigit he
      · exact isBlank_of_isDigit (List.mem_takeWhile_imp hd)

/-- White space is read as white space. -/
theorem munch_blank {c : Char} (hc : isBlank c = true) (b : Bool) (r : Text) :
    munch b c r = if c = '\n' then ⟨.newline, [c], r⟩
      else ⟨.space, c :: r.takeWhile isInlineBlank, r.dropWhile isInlineBlank⟩ := by
  have hne : ∀ {d}, isBlank d = false → c ≠ d := by
    rintro d hd rfl
    rw [hc] at hd
    cases hd
  have hnot : ∀ {p : Char → Bool}, (p c = true → isBlank c = false) → p c = false := by
    intro p hp
    cases hpc : p c with
    | false => rfl
    | true => rw [hp hpc] at hc; cases hc
  have hslash : c ≠ '/' := hne (by decide)
  have hquote : isQuote c = false := hnot isBlank_of_isQuote
  have hdigit : isDigit c = false := hnot isBlank_of_isDigit
  have hword : beginsWord c = false :=
    hnot fun h => isBlank_of_continuesWord (continuesWord_of_beginsWord h)
  have hmark : Mark.ofChar? c = none := by
    cases hm : Mark.ofChar? c with
    | none => rfl
    | some m => rw [isBlank_of_mark hm] at hc; cases hc
  simp [munch, munchPlain, hslash, hquote, hdigit, hword, hmark, hc]

/-- How a token ends that is not white space. -/
def EndsWell (m : Munch) : Prop :=
  (∃ line, m.token = .lineComment (String.ofList line) ∧ m.lexeme = '/' :: '/' :: line
      ∧ '\n' ∉ line)
    ∨ (∃ content quote, m.token = .string content quote false)
    ∨ m.token = .blockComment false
    ∨ EndsPlain m.lexeme

theorem endsWell_slash (r : Text) : EndsWell (munchSlash r) := by
  have hslash : EndsPlain ['/'] := .singleton (by decide)
  cases r with
  | nil => exact Or.inr (Or.inr (Or.inr hslash))
  | cons c r =>
      by_cases hline : c = '/'
      · subst hline
        refine Or.inl ⟨r.takeWhile (· ≠ '\n'), rfl, rfl, ?_⟩
        intro hmem
        simpa using List.mem_takeWhile_imp hmem
      · by_cases hstar : c = '*'
        · subst hstar
          cases hclosed : (commentTail r).2.1 with
          | false => exact Or.inr (Or.inr (Or.inl (congrArg Token.blockComment hclosed)))
          | true =>
              have hends := (endsPlain_commentTail hclosed).append_left ['/', '*']
              exact Or.inr (Or.inr (Or.inr hends))
        · rw [munchSlash_of_ne hline hstar]
          exact Or.inr (Or.inr (Or.inr hslash))

theorem endsWell_string {quote : Char} (hquote : isQuote quote = true) (r : Text) :
    EndsWell (munchString quote r) := by
  cases hclosed : (stringTail quote r).2.1 with
  | false =>
      refine Or.inr (Or.inl ⟨String.ofList (stringTail quote r).1, quote, ?_⟩)
      rw [munchString, hclosed]
  | true =>
      refine Or.inr (Or.inr (Or.inr ?_))
      simp only [munchString, hclosed, if_true]
      exact (EndsPlain.singleton (isBlank_of_isQuote hquote)).append_left _

theorem endsWell_plain {c : Char} (hc : isBlank c = false) (r : Text) :
    EndsWell (munchPlain c r) := by
  have hone : EndsPlain [c] := .singleton hc
  unfold munchPlain
  split
  · exact endsWell_slash r
  split
  · next hquote => exact endsWell_string hquote r
  split
  · next hdigit => exact Or.inr (Or.inr (Or.inr (endsPlain_number hdigit r)))
  split
  · refine Or.inr (Or.inr (Or.inr (hone.append ?_)))
    intro d hd
    exact isBlank_of_continuesWord (List.mem_takeWhile_imp hd)
  split
  · exact Or.inr (Or.inr (Or.inr hone))
  split
  · exact Or.inr (Or.inr (Or.inr hone))
  split
  · next hblank => rw [hc] at hblank; cases hblank
  · exact Or.inr (Or.inr (Or.inr hone))

theorem endsWell_munch (b : Bool) {c : Char} (hc : isBlank c = false) (r : Text) :
    EndsWell (munch b c r) := by
  unfold munch
  split
  · next t h =>
      split at h
      · exact Or.inr (Or.inr (Or.inr ((endsPlain_regexBody h).append_left [c])))
      · cases h
  · exact endsWell_plain hc r

end

-- ==================================================== trimming tokens

section

open Text

variable {b : Bool} {start : Nat} {t : Text}

theorem significant_cons (x : PlacedToken) (ts : List PlacedToken) :
    significant (x :: ts) = if x.token.isTrivia then significant ts else x :: significant ts := by
  rw [significant, List.filter_cons]
  cases x.token.isTrivia <;> rfl

theorem significant_trivia {x : PlacedToken} (hx : x.token.isTrivia = true)
    (ts : List PlacedToken) : significant (x :: ts) = significant ts := by
  rw [significant, List.filter_cons, hx]
  rfl

/-- What leaves the tokens as they are picks the same ones out before and
after. -/
theorem significant_map {f : PlacedToken → PlacedToken}
    (hf : ∀ x, (f x).token.isTrivia = x.token.isTrivia)
    (ts : List PlacedToken) : significant (ts.map f) = (significant ts).map f := by
  rw [significant, List.filter_map]
  simp only [Function.comp_def, hf]
  rfl

theorem inline_run (t : Text) :
    t.takeWhile isBlank = t.takeWhile isInlineBlank ++ (t.dropWhile isInlineBlank).takeWhile isBlank
      ∧ trimStart t = trimStart (t.dropWhile isInlineBlank) := by
  induction t with
  | nil => exact ⟨rfl, rfl⟩
  | cons c t ih =>
      by_cases hc : isInlineBlank c = true
      · have hblank : isBlank c = true := (Bool.and_eq_true_iff.1 hc).1
        rw [List.takeWhile_cons, hblank, if_pos rfl, List.takeWhile_cons, hc, if_pos rfl,
          List.dropWhile_cons, hc, if_pos rfl, trimStart, List.dropWhile_cons, hblank, if_pos rfl]
        exact ⟨congrArg (c :: ·) ih.1, ih.2⟩
      · rw [List.takeWhile_cons (p := isInlineBlank), if_neg hc, List.dropWhile_cons, if_neg hc]
        exact ⟨rfl, rfl⟩

/-- A token of white space takes part of the white space in front. -/
theorem munch_blank_spec {c : Char} (hc : isBlank c = true) (b : Bool) (r : Text) :
    ((munch b c r).token = .space ∨ (munch b c r).token = .newline)
      ∧ (munch b c r).lexeme.isAllBlank = true
      ∧ (c :: r).takeWhile isBlank =
        (munch b c r).lexeme ++ (munch b c r).rest.takeWhile isBlank
      ∧ trimStart (c :: r) = trimStart (munch b c r).rest := by
  rw [munch_blank hc, trimStart, List.takeWhile_cons, List.dropWhile_cons, hc]
  split
  · exact ⟨Or.inr rfl, by simp [isAllBlank, hc], rfl, rfl⟩
  · obtain ⟨htake, hdrop⟩ := inline_run r
    refine ⟨Or.inl rfl, ?_, congrArg (c :: ·) htake, hdrop⟩
    rw [isAllBlank, List.all_cons, hc, Bool.true_and, List.all_eq_true]
    intro d hd
    have hinline : isInlineBlank d = true := List.mem_takeWhile_imp hd
    exact (Bool.and_eq_true_iff.1 hinline).1

theorem blank_token {token : Token} (h : token = .space ∨ token = .newline) (sp : Span) :
    token.isTrivia = true ∧ PlacedToken.warning? ⟨token, sp⟩ = none := by
  rcases h with rfl | rfl <;> exact ⟨rfl, rfl⟩

/-- White space in front of a text is read as trivia of its own. -/
theorem tokensFrom_trimStart (b : Bool) (start : Nat) (t : Text) :
    ∃ us, tokensFrom b start t =
        us ++ tokensFrom b (start + width (t.takeWhile isBlank)) (trimStart t)
      ∧ significant us = [] ∧ lexWarnings us = [] := by
  fun_induction tokensFrom b start t with
  | case1 =>
      refine ⟨[], ?_, rfl, rfl⟩
      rw [trimStart, List.dropWhile_nil, tokensFrom, List.nil_append]
  | case2 b start c r m ih =>
      by_cases hc : isBlank c = true
      · obtain ⟨htoken, -, htake, htrim⟩ := munch_blank_spec hc b r
        obtain ⟨htrivia, hopen⟩ := blank_token htoken (Span.of start (start + m.lexeme.width))
        have hregex : m.token.regexAfter b = b := if_pos htrivia
        obtain ⟨us, hus, hnone, hwarnings⟩ := ih
        refine ⟨⟨m.token, Span.of start (start + m.lexeme.width)⟩ :: us, ?_, ?_, ?_⟩
        · rw [hus, hregex, htake, htrim, width_append, ← Nat.add_assoc]
          rfl
        · rw [significant_trivia htrivia, hnone]
        · rw [lexWarnings, List.filterMap_cons_none hopen]
          exact hwarnings
      · have hplain : isBlank c = false := Bool.eq_false_iff.2 hc
        refine ⟨[], ?_, rfl, rfl⟩
        rw [trimStart_of_not_blank hplain, List.takeWhile_cons, hplain, if_neg Bool.false_ne_true,
          tokensFrom]
        rfl

theorem significant_append (us vs : List PlacedToken) :
    significant (us ++ vs) = significant us ++ significant vs :=
  List.filter_append ..

/-- A significant token stands among all tokens, and divides them as it
divides the significant ones. -/
theorem eq_append_cons_of_significant {ts us vs : List PlacedToken} {x : PlacedToken}
    (h : significant ts = us ++ x :: vs) :
    ∃ us' vs', ts = us' ++ x :: vs' ∧ significant us' = us ∧ significant vs' = vs := by
  obtain ⟨us', ts', rfl, hus, hx⟩ := List.filter_eq_append_iff.1 h
  obtain ⟨trivia, vs', rfl, htrivia, -, hvs⟩ := List.filter_eq_cons_iff.1 hx
  refine ⟨us' ++ trivia, vs', by simp, ?_, hvs⟩
  rw [significant, List.filter_append, hus, List.filter_eq_nil_iff.2 htrivia, List.append_nil]

theorem significant_trimStart (b : Bool) (start : Nat) (t : Text) :
    significant (tokensFrom b start t) =
      significant (tokensFrom b (start + width (t.takeWhile isBlank)) (trimStart t)) := by
  obtain ⟨us, htokens, hus, -⟩ := tokensFrom_trimStart b start t
  rw [htokens, significant_append, hus, List.nil_append]

/-- Blank text has no significant token and leaves nothing open. -/
theorem tokensFrom_of_isAllBlank (ht : t.isAllBlank = true) (b : Bool) (start : Nat) :
    significant (tokensFrom b start t) = [] ∧ lexWarnings (tokensFrom b start t) = [] := by
  obtain ⟨us, htokens, hus, hwarnings⟩ := tokensFrom_trimStart b start t
  rw [htokens, trimStart_eq_nil.2 ht, tokensFrom, List.append_nil]
  exact ⟨hus, hwarnings⟩

theorem munch_lineComment {line : Text} (hline : '\n' ∉ line) (b : Bool) :
    munch b '/' ('/' :: line) = ⟨.lineComment (String.ofList line), '/' :: '/' :: line, []⟩ := by
  have hbreak : ∀ c ∈ line, decide (c ≠ '\n') = true := by
    intro c hc
    apply decide_eq_true
    rintro rfl
    exact hline hc
  have hslash : munchSlash ('/' :: line) =
      ⟨.lineComment (String.ofList line), '/' :: '/' :: line, []⟩ := by
    rw [munchSlash, List.takeWhile_eq_self_iff.2 hbreak, List.dropWhile_eq_nil_iff.2 hbreak]
  rw [← hslash]
  cases b <;> rfl

/-- A line comment without the white space at its end is still one. -/
theorem significant_lineComment {line : Text} (hline : '\n' ∉ line) (b : Bool) (start : Nat) :
    significant (tokensFrom b start (trimEnd ('/' :: '/' :: line))) = [] := by
  have hslashes : trimEnd ['/', '/'] = ['/', '/'] := by decide
  obtain ⟨kept, hkept, htrim⟩ : ∃ kept, '\n' ∉ kept ∧
      trimEnd ('/' :: '/' :: line) = '/' :: '/' :: kept := by
    show ∃ kept, '\n' ∉ kept ∧ trimEnd (['/', '/'] ++ line) = _
    rw [trimEnd_append, hslashes]
    split
    · exact ⟨[], List.not_mem_nil, rfl⟩
    · obtain ⟨z, -, hz⟩ := exists_trimEnd line
      refine ⟨trimEnd line, ?_, rfl⟩
      intro hmem
      rw [hz] at hline
      exact hline (List.mem_append_left z hmem)
  rw [htrim, tokensFrom, munch_lineComment hkept, significant_trivia rfl, tokensFrom]
  rfl

/-- The last token of a text, not left open, is significant or not just
as it is when the white space behind it is gone. -/
theorem significant_last {c : Char} {r lexeme rest : Text} {token : Token}
    (hm : munch b c r = ⟨token, lexeme, rest⟩) (hrest : rest.isAllBlank = true)
    (hopen : PlacedToken.warning? ⟨token, Span.of start (start + lexeme.width)⟩ = none) :
    significant (tokensFrom b start (trimEnd (c :: r))) =
      significant [⟨token, Span.of start (start + lexeme.width)⟩] := by
  have happend := munch_append b c r
  rw [hm] at happend
  have htrim : trimEnd (c :: r) = trimEnd lexeme := by
    rw [← happend, trimEnd_append, if_pos hrest]
  rw [htrim]
  by_cases hc : isBlank c = true
  · obtain ⟨htoken, hblank, -, -⟩ := munch_blank_spec hc b r
    rw [hm] at htoken hblank
    have htrivia := (blank_token htoken (Span.of start (start + lexeme.width))).1
    have hnil : trimEnd lexeme = [] := by
      have hall := trimEnd_append [] lexeme
      rwa [hblank, if_pos rfl] at hall
    rw [hnil, significant_trivia htrivia, tokensFrom]
  · have hends := endsWell_munch b (Bool.eq_false_iff.2 hc) r
    rw [hm] at hends
    rcases hends with ⟨line, rfl, rfl, hline⟩ | ⟨content, quote, rfl⟩ | rfl | hplain
    · rw [significant_lineComment hline, significant_trivia rfl]
      rfl
    · cases hopen
    · cases hopen
    · rw [hplain.trimEnd_eq]
      have hne := munch_lexeme_ne_nil b c r
      rw [hm] at hne
      obtain ⟨d, l, rfl⟩ := List.exists_cons_of_ne_nil hne
      obtain ⟨rfl, rfl⟩ := List.cons.inj happend
      rw [tokensFrom, munch_cut (p := []) hm, tokensFrom]

/-- A token that more than white space follows is the same in the trimmed
text. -/
theorem munch_trimEnd {c : Char} {r : Text} (hrest : ¬(munch b c r).rest.isAllBlank = true) :
    ∃ l, trimEnd (c :: r) = c :: l ∧
      munch b c l = ⟨(munch b c r).token, (munch b c r).lexeme, trimEnd (munch b c r).rest⟩ := by
  obtain ⟨z, -, hz⟩ := exists_trimEnd (munch b c r).rest
  have happend := munch_append b c r
  have htrim : trimEnd (c :: r) = (munch b c r).lexeme ++ trimEnd (munch b c r).rest := by
    rw [← happend, trimEnd_append, if_neg hrest]
  obtain ⟨d, l, hlexeme⟩ := List.exists_cons_of_ne_nil (munch_lexeme_ne_nil b c r)
  rw [hlexeme, List.cons_append] at happend
  obtain ⟨rfl, hr⟩ := List.cons.inj happend
  refine ⟨l ++ trimEnd (munch b d r).rest, by rw [htrim, hlexeme]; rfl, ?_⟩
  -- the white space behind the text is what the token is cut off from
  have hm : munch b d ((l ++ trimEnd (munch b d r).rest) ++ z) =
      ⟨(munch b d r).token, (munch b d r).lexeme, trimEnd (munch b d r).rest ++ z⟩ := by
    rw [List.append_assoc, ← hz, show l ++ (munch b d r).rest = r from hr]
  exact munch_cut hm

/-- White space behind a text in which nothing is left open adds no
significant token. -/
theorem significant_trimEnd (h : lexWarnings (tokensFrom b start t) = []) :
    significant (tokensFrom b start (trimEnd t)) = significant (tokensFrom b start t) := by
  fun_induction tokensFrom b start t with
  | case1 =>
      show significant (tokensFrom _ _ []) = _
      rw [tokensFrom]
  | case2 b start c r m ih =>
      obtain ⟨hfirst, hlater⟩ : PlacedToken.warning? _ = none ∧ lexWarnings _ = [] := by
        rw [lexWarnings, List.filterMap_cons] at h
        split at h
        · next hnone => exact ⟨hnone, h⟩
        · cases h
      by_cases hrest : m.rest.isAllBlank = true
      · have hall := (tokensFrom_of_isAllBlank hrest (m.token.regexAfter b)
          (start + m.lexeme.width)).1
        rw [significant_last rfl hrest hfirst, significant_cons, significant_cons, hall]
        rfl
      · obtain ⟨l, htrim, hm⟩ := munch_trimEnd hrest
        rw [htrim, tokensFrom, hm, significant_cons, significant_cons, ih hlater]

/-- Trimming a text in which nothing is left open only moves its
significant tokens. -/
theorem significant_trim (h : lexWarnings (tokensFrom b start t) = []) :
    significant (tokensFrom b start t) =
      significant (tokensFrom b (start + width (t.takeWhile isBlank)) (trim t)) := by
  obtain ⟨us, htokens, -, -⟩ := tokensFrom_trimStart b start t
  rw [htokens, lexWarnings, List.filterMap_append] at h
  rw [significant_trimStart, trim, significant_trimEnd (List.append_eq_nil_iff.1 h).2]

end

end SchemaAtlas
