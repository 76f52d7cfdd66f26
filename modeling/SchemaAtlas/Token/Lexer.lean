/-
Lexing. A text is read token by token, left to right; every character
becomes part of exactly one token, so nothing is ever refused. A slash
opens a regular expression only where an expression may begin, which
the token before it decides.

- `Munch`: one token, the characters it takes, and the rest.
- `munch_append`, `munch_lexeme_ne_nil`: a token takes a non-empty
  piece off the front and leaves the rest untouched.
- `tokensFrom`, `tokenize`: the tokens of a text with their spans.
- `lexWarnings`: literals and comments left open.
-/
import SchemaAtlas.Diagnostic.Warning
import SchemaAtlas.Text.Letter
import SchemaAtlas.Token.Basic

namespace SchemaAtlas

/-- A token taken off the front of a text. -/
structure Munch where
  token : Token
  lexeme : Text
  rest : Text

-- ==================================================== literals

/-- The text behind an opening quote: content, whether the quote closes
it, and what follows. A backslash takes the next character with it; a
line break ends every literal but a template. -/
def stringTail (quote : Char) : Text → Text × Bool × Text
  | [] => ([], false, [])
  | '\\' :: c :: r =>
      let t := stringTail quote r
      ('\\' :: c :: t.1, t.2)
  | c :: r =>
      if c = quote then ([], true, r)
      else if c = '\\' || (c = '\n' && quote ≠ '\x60') then ([], false, c :: r)
      else
        let t := stringTail quote r
        (c :: t.1, t.2)

/-- The text behind `/*`: the comment through its `*/` and what
follows. An open comment takes everything. -/
def commentTail : Text → Text × Bool × Text
  | [] => ([], false, [])
  | '*' :: '/' :: r => (['*', '/'], true, r)
  | c :: r =>
      let t := commentTail r
      (c :: t.1, t.2)

/-- The text behind the opening slash of a regular expression: the
expression through its closing slash, and what follows. Inside a
character class a slash is an ordinary character. There is no
expression when the line ends first. -/
def regexTail (inClass : Bool) : Text → Option (Text × Text)
  | [] => none
  | '\\' :: c :: r =>
      if c = '\n' then none
      else (regexTail inClass r).map fun t => ('\\' :: c :: t.1, t.2)
  | c :: r =>
      if c = '\\' || c = '\n' then none
      else if inClass then (regexTail (c ≠ ']') r).map fun t => (c :: t.1, t.2)
      else if c = '/' then some ([c], r)
      else (regexTail (c = '[') r).map fun t => (c :: t.1, t.2)

/-- The text behind a slash as a regular expression with its flags. An
expression is not empty and does not begin with a star. -/
def regexBody : Text → Option (Text × Text)
  | [] => none
  | c :: r =>
      if c = '/' || c = '*' then none
      else
        (regexTail false (c :: r)).map fun t =>
          (t.1 ++ t.2.takeWhile Text.isAsciiLetter, t.2.dropWhile Text.isAsciiLetter)

/-- The fraction behind a number's whole digits: a point and digits, or
nothing. -/
def fractionTail : Text → Text × Text
  | '.' :: d :: r =>
      if Text.isDigit d then ('.' :: d :: r.takeWhile Text.isDigit, r.dropWhile Text.isDigit)
      else ([], '.' :: d :: r)
  | t => ([], t)

-- ==================================================== words

/-- Characters that begin a word. -/
def beginsWord (c : Char) : Bool :=
  Text.isLetter c || c = '_' || c = '$'

/-- Characters that continue a word. -/
def continuesWord (c : Char) : Bool :=
  Text.isLetter c || Text.isNumeral c || c = '_' || c = '$'

/-- A word as a token: a keyword if it is reserved. -/
def wordToken (word : Text) : Token :=
  match Keyword.ofWord? (String.ofList word) with
  | some k => .keyword k
  | none => .identifier (String.ofList word)

/-- White space within a line. -/
def isInlineBlank (c : Char) : Bool :=
  Text.isBlank c && c ≠ '\n'

-- ==================================================== one token

/-- The quote characters of string literals. -/
def isQuote (c : Char) : Bool :=
  c = '\'' || c = '"' || c = '\x60'

/-- The token at a slash that opens no regular expression. -/
def munchSlash : Text → Munch
  | '/' :: r =>
      let line := r.takeWhile (· ≠ '\n')
      ⟨.lineComment (String.ofList line), '/' :: '/' :: line, r.dropWhile (· ≠ '\n')⟩
  | '*' :: r =>
      let t := commentTail r
      ⟨.blockComment t.2.1, '/' :: '*' :: t.1, t.2.2⟩
  | r => ⟨.other '/', ['/'], r⟩

/-- The token at a quote. -/
def munchString (quote : Char) (r : Text) : Munch :=
  let t := stringTail quote r
  ⟨.string (String.ofList t.1) quote t.2.1,
   quote :: t.1 ++ (if t.2.1 then [quote] else []), t.2.2⟩

/-- The token at a digit. -/
def munchNumber (c : Char) (r : Text) : Munch :=
  let whole := c :: r.takeWhile Text.isDigit
  let t := fractionTail (r.dropWhile Text.isDigit)
  ⟨.number (String.ofList (whole ++ t.1)), whole ++ t.1, t.2⟩

/-- The token that begins with `c` where no regular expression does. -/
def munchPlain (c : Char) (r : Text) : Munch :=
  if c = '/' then munchSlash r
  else if isQuote c then munchString c r
  else if Text.isDigit c then munchNumber c r
  else if beginsWord c then
    ⟨wordToken (c :: r.takeWhile continuesWord), c :: r.takeWhile continuesWord,
     r.dropWhile continuesWord⟩
  else if let some m := Mark.ofChar? c then ⟨.mark m, [c], r⟩
  else if c = '\n' then ⟨.newline, [c], r⟩
  else if Text.isBlank c then
    ⟨.space, c :: r.takeWhile isInlineBlank, r.dropWhile isInlineBlank⟩
  else ⟨.other c, [c], r⟩

/-- The token that begins with `c`, a regular expression if one is
allowed there and one can be read. -/
def munch (regexAllowed : Bool) (c : Char) (r : Text) : Munch :=
  match (if regexAllowed && c = '/' then regexBody r else none) with
  | some t => ⟨.regex (String.ofList (c :: t.1)), c :: t.1, t.2⟩
  | none => munchPlain c r

-- ==================================================== progress

theorem stringTail_append (quote : Char) (t : Text) :
    (stringTail quote t).1 ++
      ((if (stringTail quote t).2.1 then [quote] else []) ++ (stringTail quote t).2.2) = t := by
  fun_induction stringTail quote t <;> grind

theorem commentTail_append (t : Text) :
    (commentTail t).1 ++ (commentTail t).2.2 = t := by
  fun_induction commentTail t <;> grind

theorem regexTail_append {inClass : Bool} {t : Text} {u : Text × Text}
    (h : regexTail inClass t = some u) : u.1 ++ u.2 = t := by
  fun_induction regexTail inClass t generalizing u <;>
    simp_all [Option.map_eq_some_iff] <;> grind

theorem regexBody_append {t : Text} {u : Text × Text} (h : regexBody t = some u) :
    u.1 ++ u.2 = t := by
  cases t with
  | nil => simp [regexBody] at h
  | cons c r =>
      simp only [regexBody] at h
      split at h
      · simp at h
      · obtain ⟨v, hv, rfl⟩ := Option.map_eq_some_iff.1 h
        simpa [List.append_assoc] using regexTail_append hv

theorem fractionTail_append (t : Text) :
    (fractionTail t).1 ++ (fractionTail t).2 = t := by
  unfold fractionTail
  split
  · split <;> simp
  · simp

theorem munchPlain_append (c : Char) (r : Text) :
    (munchPlain c r).lexeme ++ (munchPlain c r).rest = c :: r := by
  unfold munchPlain
  split
  · next h =>
      subst h
      unfold munchSlash
      split <;> simp [commentTail_append]
  · split
    · have := stringTail_append c r
      simp only [munchString, List.append_assoc, List.cons_append, this]
    · split
      · simp [munchNumber, fractionTail_append, List.append_assoc]
      · split
        · simp
        · split
          · rfl
          · split
            · rfl
            · split
              · simp
              · rfl

/-- A token and the rest make up the text. -/
theorem munch_append (regexAllowed : Bool) (c : Char) (r : Text) :
    (munch regexAllowed c r).lexeme ++ (munch regexAllowed c r).rest = c :: r := by
  unfold munch
  split
  · next t h =>
      split at h
      · simp [regexBody_append h]
      · simp at h
  · exact munchPlain_append c r

theorem munchPlain_lexeme_ne_nil (c : Char) (r : Text) : (munchPlain c r).lexeme ≠ [] := by
  unfold munchPlain munchSlash munchString munchNumber
  grind

/-- A token takes at least one character. -/
theorem munch_lexeme_ne_nil (regexAllowed : Bool) (c : Char) (r : Text) :
    (munch regexAllowed c r).lexeme ≠ [] := by
  unfold munch
  split
  · simp
  · exact munchPlain_lexeme_ne_nil c r

/-- What follows a token is shorter than the text it begins. -/
theorem munch_rest_length (regexAllowed : Bool) (c : Char) (r : Text) :
    (munch regexAllowed c r).rest.length < (c :: r).length := by
  have h := congrArg List.length (munch_append regexAllowed c r)
  have h' := List.length_pos_iff.2 (munch_lexeme_ne_nil regexAllowed c r)
  rw [List.length_append] at h
  omega

-- ==================================================== all tokens

/-- The tokens of a text that begins at byte `start` of a longer one,
where a regular expression is allowed or not. -/
def tokensFrom (regexAllowed : Bool) (start : Nat) : Text → List PlacedToken
  | [] => []
  | c :: r =>
      let m := munch regexAllowed c r
      ⟨m.token, Span.of start (start + m.lexeme.width)⟩
        :: tokensFrom (m.token.regexAfter regexAllowed) (start + m.lexeme.width) m.rest
termination_by t => t.length
decreasing_by exact munch_rest_length regexAllowed c r

/-- The tokens of a text. -/
def tokenize (t : Text) : List PlacedToken :=
  tokensFrom true 0 t

/-- The warning a token gives rise to by being left open. -/
def PlacedToken.warning? (t : PlacedToken) : Option Warning :=
  match t.token with
  | .string _ quote false => some (.openString t.span quote)
  | .blockComment false => some (.openComment t.span)
  | _ => none

/-- Literals and comments that are never closed. -/
def lexWarnings (ts : List PlacedToken) : List Warning :=
  ts.filterMap PlacedToken.warning?

end SchemaAtlas
