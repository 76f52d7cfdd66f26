/-
The rules of the lexer. Every kind of token has a rule of its own, which
reads one such token off the front of a text or refuses. Rules are tried
in a fixed order, and the first that does not refuse gives the token. A
regular expression comes first, where one is allowed; the rule for any
other character comes last and refuses only where no text is left. So
there is no character at which every rule refuses, and the lexer never
has to pass over one.

- `Rule.inOrder`: the rules as they are tried.
- `Rule.first?`: the token of the first rule that reads one.
- `Rule.first?_cons`: this is the token that the lexer takes.
- `Rule.read_eq`: reading by rules, no character is passed over.
-/
import SchemaAtlas.Proofs.Token.Locality

namespace SchemaAtlas

/-- Reads one kind of token off the front of a text. -/
abbrev Rule :=
  Text → Option Munch

namespace Rule

-- ==================================================== the rules

/-- An expression between slashes on one line, with its flags. -/
def regex : Rule
  | '/' :: r => (regexBody r).map fun t => ⟨.regex (String.ofList ('/' :: t.1)), '/' :: t.1, t.2⟩
  | _ => none

/-- Two slashes and the rest of the line. -/
def lineComment : Rule
  | '/' :: '/' :: r =>
      some ⟨.lineComment (String.ofList (r.takeWhile (· ≠ '\n'))),
        '/' :: '/' :: r.takeWhile (· ≠ '\n'), r.dropWhile (· ≠ '\n')⟩
  | _ => none

/-- A slash and a star, and the text to the star and slash that close
them. -/
def blockComment : Rule
  | '/' :: '*' :: r =>
      some ⟨.blockComment (commentTail r).2.1, '/' :: '*' :: (commentTail r).1, (commentTail r).2.2⟩
  | _ => none

/-- A literal in single or double quotes. -/
def quoted : Rule
  | c :: r => if c = '\'' ∨ c = '"' then some (munchString c r) else none
  | [] => none

/-- A literal in backquotes. -/
def template : Rule
  | c :: r => if c = '\x60' then some (munchString c r) else none
  | [] => none

/-- Digits, perhaps with a fraction. -/
def number : Rule
  | c :: r => if Text.isDigit c then some (munchNumber c r) else none
  | [] => none

/-- An identifier or a reserved word. -/
def word : Rule
  | c :: r =>
      if beginsWord c then
        some ⟨wordToken (c :: r.takeWhile continuesWord), c :: r.takeWhile continuesWord,
          r.dropWhile continuesWord⟩
      else none
  | [] => none

/-- A character that structures the text. -/
def punctuation : Rule
  | c :: r => (Mark.ofChar? c).map fun m => ⟨.mark m, [c], r⟩
  | [] => none

/-- A line break. -/
def lineBreak : Rule
  | c :: r => if c = '\n' then some ⟨.newline, [c], r⟩ else none
  | [] => none

/-- White space within a line. -/
def space : Rule
  | c :: r =>
      if isInlineBlank c then
        some ⟨.space, c :: r.takeWhile isInlineBlank, r.dropWhile isInlineBlank⟩
      else none
  | [] => none

/-- Any character. -/
def other : Rule
  | c :: r => some ⟨.other c, [c], r⟩
  | [] => none

/-- The rules as they are tried where no regular expression may begin. -/
def plain : List Rule :=
  [lineComment, blockComment, quoted, template, number, word, punctuation, lineBreak, space, other]

/-- The rules as they are tried. -/
def inOrder (regexAllowed : Bool) : List Rule :=
  if regexAllowed then regex :: plain else plain

/-- What the first rule reads that does not refuse. -/
def first? (rules : List Rule) (t : Text) : Option Munch :=
  rules.findSome? fun rule => rule t

-- ==================================================== the first that reads

theorem first?_some {rule : Rule} {t : Text} {m : Munch} (h : rule t = some m)
    (rules : List Rule) : first? (rule :: rules) t = some m :=
  List.findSome?_cons_of_isSome (by rw [h]; rfl) |>.trans h

theorem first?_none {rule : Rule} {t : Text} (h : rule t = none) (rules : List Rule) :
    first? (rule :: rules) t = first? rules t :=
  List.findSome?_cons_of_isNone (by rw [h]; rfl)

/-- A comment begins with a slash. -/
theorem comments_none {c : Char} (h : c ≠ '/') (r : Text) :
    lineComment (c :: r) = none ∧ blockComment (c :: r) = none := by
  constructor
  · unfold lineComment
    split
    · next heq => exact absurd (List.cons.inj heq).1 h
    · rfl
  · unfold blockComment
    split
    · next heq => exact absurd (List.cons.inj heq).1 h
    · rfl

/-- A slash that begins no comment is any other character. -/
theorem first?_slash (r : Text) : first? plain ('/' :: r) = some (munchSlash r) := by
  fun_cases munchSlash r with
  | case1 r line => rfl
  | case2 r t => rfl
  | case3 r hline hblock =>
      have hcomment : lineComment ('/' :: r) = none := by
        unfold lineComment
        split
        · next s heq => exact absurd (List.cons.inj heq).2 (hline s)
        · rfl
      have hblocked : blockComment ('/' :: r) = none := by
        unfold blockComment
        split
        · next s heq => exact absurd (List.cons.inj heq).2 (hblock s)
        · rfl
      rw [plain, first?_none hcomment, first?_none hblocked]
      rfl

/-- Where no regular expression may begin. -/
theorem first?_plain (c : Char) (r : Text) : first? plain (c :: r) = some (munchPlain c r) := by
  unfold munchPlain
  by_cases hslash : c = '/'
  · rw [if_pos hslash, hslash]
    exact first?_slash r
  obtain ⟨hline, hblock⟩ := comments_none hslash r
  rw [if_neg hslash, plain, first?_none hline, first?_none hblock]
  by_cases hquote : isQuote c = true
  · rw [if_pos hquote]
    by_cases hquoted : c = '\'' ∨ c = '"'
    · exact first?_some (if_pos hquoted) _
    · have htemplate : c = '\x60' := by
        simpa [isQuote, not_or.1 hquoted] using hquote
      rw [first?_none (if_neg hquoted)]
      exact first?_some (if_pos htemplate) _
  have hquotes : (¬(c = '\'' ∨ c = '"')) ∧ c ≠ '\x60' := by
    simpa [isQuote] using hquote
  rw [if_neg hquote, first?_none (if_neg hquotes.1), first?_none (if_neg hquotes.2)]
  by_cases hdigit : Text.isDigit c = true
  · rw [if_pos hdigit]
    exact first?_some (if_pos hdigit) _
  rw [if_neg hdigit, first?_none (if_neg hdigit)]
  by_cases hword : beginsWord c = true
  · rw [if_pos hword]
    exact first?_some (if_pos hword) _
  rw [if_neg hword, first?_none (if_neg hword)]
  cases hmark : Mark.ofChar? c with
  | some m => exact first?_some (congrArg (Option.map _) hmark) _
  | none =>
      rw [first?_none (congrArg (Option.map _) hmark)]
      simp only
      by_cases hbreak : c = '\n'
      · rw [if_pos hbreak]
        exact first?_some (if_pos hbreak) _
      rw [if_neg hbreak, first?_none (if_neg hbreak)]
      -- a blank that is no line break is one within a line
      have hinline : isInlineBlank c = Text.isBlank c := by
        simp [isInlineBlank, hbreak]
      by_cases hblank : Text.isBlank c = true
      · rw [if_pos hblank]
        exact first?_some (if_pos (hinline.trans hblank)) _
      · rw [if_neg hblank, first?_none (if_neg (hinline ▸ hblank))]
        rfl

/-- At every character some rule reads a token, and the first that does
reads the one that the lexer takes. -/
theorem first?_cons (b : Bool) (c : Char) (r : Text) :
    first? (inOrder b) (c :: r) = some (munch b c r) := by
  unfold munch inOrder
  cases b with
  | false => exact first?_plain c r
  | true =>
      by_cases hslash : c = '/'
      · subst hslash
        cases hbody : regexBody r with
        | some t => exact first?_some (congrArg (Option.map _) hbody) _
        | none =>
            rw [if_pos rfl, first?_none (congrArg (Option.map _) hbody)]
            simpa [hbody] using first?_plain '/' r
      · have hregex : regex (c :: r) = none := by
          unfold regex
          split
          · next heq => exact absurd (List.cons.inj heq).1 hslash
          · rfl
        rw [if_pos rfl, first?_none hregex]
        simpa [hslash] using first?_plain c r

-- ==================================================== reading by rules

/-- The tokens of a text as the rules read them, and the places of the
characters at which every rule refuses. Such a character is passed
over. -/
def read (regexAllowed : Bool) (start : Nat) : Text → List PlacedToken × List Nat
  | [] => ([], [])
  | c :: r =>
      match _ : first? (inOrder regexAllowed) (c :: r) with
      | some m =>
          let later := read (m.token.regexAfter regexAllowed) (start + m.lexeme.width) m.rest
          (⟨m.token, Span.of start (start + m.lexeme.width)⟩ :: later.1, later.2)
      | none =>
          let later := read regexAllowed (start + c.utf8Size) r
          (later.1, start :: later.2)
termination_by t => t.length
decreasing_by
  · rename_i h
    rw [first?_cons] at h
    cases h
    exact munch_rest_length regexAllowed c r
  · exact Nat.lt_succ_self r.length

/-- The rules read what the lexer reads, and no character is passed
over. -/
theorem read_eq (b : Bool) (start : Nat) (t : Text) :
    read b start t = (tokensFrom b start t, []) := by
  fun_induction tokensFrom b start t with
  | case1 => rw [read]
  | case2 b start c r m ih =>
      rw [read]
      split
      · next m' h =>
          obtain rfl : munch b c r = m' := Option.some.inj ((first?_cons b c r).symm.trans h)
          rw [ih]
      · next h =>
          rw [first?_cons] at h
          cases h

end Rule

end SchemaAtlas
