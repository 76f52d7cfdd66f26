/-
Tokens of schema sources. The set is small: enough of the host language
to find declarations and to match brackets. Strings, comments and
regular expressions are single tokens, so that brackets and quotes
inside them never count as structure.
-/
import SchemaAtlas.Span

namespace SchemaAtlas

/-- Reserved words that matter to declarations and registrations. -/
inductive Keyword
  | constWord
  | letWord
  | varWord
  | newWord
  | exportWord
  | defaultWord
  deriving DecidableEq, Repr

namespace Keyword

/-- The keyword as it is written. -/
def word : Keyword → String
  | constWord => "const"
  | letWord => "let"
  | varWord => "var"
  | newWord => "new"
  | exportWord => "export"
  | defaultWord => "default"

/-- Every keyword. -/
def all : List Keyword :=
  [constWord, letWord, varWord, newWord, exportWord, defaultWord]

/-- The keyword a word is reserved for. -/
def ofWord? (word : String) : Option Keyword :=
  all.find? fun k => k.word = word

/-- Whether the keyword opens a variable declaration. -/
def bindsName : Keyword → Bool
  | constWord | letWord | varWord => true
  | newWord | exportWord | defaultWord => false

end Keyword

-- ==================================================== marks

/-- Characters that structure a source. -/
inductive Mark
  | leftBrace
  | rightBrace
  | leftBracket
  | rightBracket
  | leftParen
  | rightParen
  | comma
  | semicolon
  | colon
  | equals
  | dot
  | leftAngle
  | rightAngle
  deriving DecidableEq, Repr

namespace Mark

/-- The character a mark is written as. -/
def char : Mark → Char
  | leftBrace => '{'
  | rightBrace => '}'
  | leftBracket => '['
  | rightBracket => ']'
  | leftParen => '('
  | rightParen => ')'
  | comma => ','
  | semicolon => ';'
  | colon => ':'
  | equals => '='
  | dot => '.'
  | leftAngle => '<'
  | rightAngle => '>'

/-- Every mark. -/
def all : List Mark :=
  [leftBrace, rightBrace, leftBracket, rightBracket, leftParen, rightParen, comma, semicolon,
   colon, equals, dot, leftAngle, rightAngle]

/-- The mark a character is, if it is one. -/
def ofChar? (c : Char) : Option Mark :=
  all.find? fun m => m.char = c

/-- Opening brace, bracket or parenthesis. -/
def opens : Mark → Bool
  | leftBrace | leftBracket | leftParen => true
  | _ => false

/-- Closing brace, bracket or parenthesis. -/
def closes : Mark → Bool
  | rightBrace | rightBracket | rightParen => true
  | _ => false

end Mark

-- ==================================================== tokens

/-- One token of a source. -/
inductive Token
  | keyword (k : Keyword)
  | identifier (name : String)
  /-- A quoted or template string; the content keeps its escapes. -/
  | string (content : String) (quote : Char) (closed : Bool)
  | number (text : String)
  /-- A regular expression with its slashes and flags. -/
  | regex (text : String)
  | mark (m : Mark)
  /-- Any other single character. -/
  | other (c : Char)
  /-- A comment to the end of the line, without its slashes. -/
  | lineComment (text : String)
  | blockComment (closed : Bool)
  /-- A run of white space without line breaks. -/
  | space
  | newline
  deriving DecidableEq, Repr

namespace Token

/-- Comments and white space. -/
def isTrivia : Token → Bool
  | lineComment _ | blockComment _ | space | newline => true
  | _ => false

/-- The name of an identifier. -/
def identifier? : Token → Option String
  | identifier name => some name
  | _ => none

/-- The content of a string literal that is closed. -/
def closedString? : Token → Option String
  | string content _ true => some content
  | _ => none

/-- Whether a slash after this token opens a regular expression rather
than divides. -/
def allowsRegex : Token → Bool
  | mark .colon | mark .leftParen | mark .comma | mark .equals | mark .leftBracket
  | mark .leftBrace | mark .rightBrace | mark .semicolon => true
  | other c => c = '!' || c = '&' || c = '|' || c = '?'
  | _ => false

/-- Whether a slash opens a regular expression after this token, given
whether one did before it: trivia change nothing. -/
def regexAfter (t : Token) (before : Bool) : Bool :=
  if t.isTrivia then before else t.allowsRegex

/-- Bracket depth after this token; a stray closing bracket leaves
depth zero as it is. -/
def depthAfter (t : Token) (depth : Nat) : Nat :=
  match t with
  | mark m => if m.opens then depth + 1 else if m.closes then depth - 1 else depth
  | _ => depth

end Token

/-- A token and the span it covers. -/
structure PlacedToken where
  token : Token
  span : Span
  deriving DecidableEq, Repr

namespace PlacedToken

/-- The token moved right by `n` bytes. -/
def shift (t : PlacedToken) (n : Nat) : PlacedToken :=
  { t with span := t.span.shift n }

/-- Whether the token is the given mark. -/
def isMark (t : PlacedToken) (m : Mark) : Bool :=
  t.token = .mark m

end PlacedToken

/-- The tokens that carry meaning: all but comments and white space. -/
def significant (ts : List PlacedToken) : List PlacedToken :=
  ts.filter fun t => !t.token.isTrivia

end SchemaAtlas
