/-
Quoted strings of TOML. Strings in double quotes know escapes, strings
in single quotes do not; three quotes in a row enclose text of several
lines, in which up to two quotes may stand by themselves, also at the
end, and line breaks stay as they are written. Other control characters
than these and the tab are refused.

- `Quoted.read?`: the string at the head of a text, and the rest.
-/
import SchemaAtlas.Text.Hex

namespace SchemaAtlas

namespace Toml

/-- Control characters that no document holds as they are. -/
def isControl (c : Char) : Bool :=
  (c.toNat < 0x20 && c ≠ '\t') || c = '\x7f'

/-- White space within a line. -/
def isSpace (c : Char) : Bool :=
  c = ' ' || c = '\t'

namespace Quoted

-- ==================================================== escapes

/-- The character written with hexadecimal digits. -/
def character? (digits : Text) : Option Char :=
  match Text.hexNumber? digits with
  | some n => if n.isValidChar then some (Char.ofNat n) else none
  | none => none

/-- The character that a backslash and one more character stand for. -/
def short? : Char → Option Char
  | 'b' => some '\x08'
  | 't' => some '\t'
  | 'n' => some '\n'
  | 'f' => some '\x0c'
  | 'r' => some '\r'
  | 'e' => some '\x1b'
  | '"' => some '"'
  | '\\' => some '\\'
  | _ => none

/-- The character of the escape at the head of a text behind its
backslash, and what follows. -/
def escape? : Text → Option (Char × Text)
  | 'x' :: a :: b :: r => (character? [a, b]).map fun c => (c, r)
  | 'u' :: a :: b :: c :: d :: r => (character? [a, b, c, d]).map fun x => (x, r)
  | 'U' :: a :: b :: c :: d :: e :: f :: g :: h :: r =>
      (character? [a, b, c, d, e, f, g, h]).map fun x => (x, r)
  | c :: r => (short? c).map fun x => (x, r)
  | [] => none

theorem length_escape? {t r : Text} {c : Char} (h : escape? t = some (c, r)) :
    r.length < t.length := by
  unfold escape? at h
  split at h <;> simp at h <;> obtain ⟨_, _, _, rfl⟩ := h <;> simp <;> omega

/-- A character in front of what reading on yields. -/
def prepend (c : Char) (rest : Option (Text × Text)) : Option (Text × Text) :=
  rest.map fun p => (c :: p.1, p.2)

-- ==================================================== on one line

/-- The content behind an opening double quote, and what follows the
closing one. -/
def basicTail (t : Text) : Option (Text × Text) :=
  match t with
  | [] => none
  | '"' :: r => some ([], r)
  | '\\' :: r =>
      match _h : escape? r with
      | some (c, rest) => prepend c (basicTail rest)
      | none => none
  | c :: r => if isControl c then none else prepend c (basicTail r)
termination_by t.length
decreasing_by
  · have := length_escape? _h
    simp
    omega
  · simp

/-- The content behind an opening single quote, and what follows the
closing one. -/
def literalTail : Text → Option (Text × Text)
  | [] => none
  | '\'' :: r => some ([], r)
  | c :: r => if isControl c then none else prepend c (literalTail r)

-- ==================================================== on several lines

/-- The text without a line break at its head. -/
def dropLineBreak : Text → Text
  | '\n' :: r => r
  | '\r' :: '\n' :: r => r
  | t => t

/-- Whether only white space stands in front of the next line break. -/
def endsLine (t : Text) : Bool :=
  match t.dropWhile isSpace with
  | '\n' :: _ => true
  | '\r' :: '\n' :: _ => true
  | _ => false

/-- The content behind three double quotes, and what follows the
closing three. A backslash at the end of a line joins it with the next
line that is not blank. While `joining`, white space is passed over. -/
def basicLines (joining : Bool) (t : Text) : Option (Text × Text) :=
  match t with
  | [] => none
  | '"' :: '"' :: '"' :: '"' :: '"' :: r => some (['"', '"'], r)
  | '"' :: '"' :: '"' :: '"' :: r => some (['"'], r)
  | '"' :: '"' :: '"' :: r => some ([], r)
  | '\r' :: '\n' :: r =>
      if joining then basicLines true r
      else prepend '\r' (prepend '\n' (basicLines false r))
  | '\n' :: r => if joining then basicLines true r else prepend '\n' (basicLines false r)
  | '\\' :: r =>
      if endsLine r then basicLines true r
      else
        match _h : escape? r with
        | some (c, rest) => prepend c (basicLines false rest)
        | none => none
  | c :: r =>
      if joining && isSpace c then basicLines true r
      else if isControl c then none
      else prepend c (basicLines false r)
termination_by t.length
decreasing_by
  case _ => simp only [List.length_cons]; omega
  case _ => simp only [List.length_cons]; omega
  case _ => simp
  case _ => simp
  case _ => simp
  case _ =>
    have := length_escape? _h
    simp
    omega
  case _ => simp
  case _ => simp

/-- The content behind three single quotes, and what follows the
closing three. -/
def literalLines : Text → Option (Text × Text)
  | [] => none
  | '\'' :: '\'' :: '\'' :: '\'' :: '\'' :: r => some (['\'', '\''], r)
  | '\'' :: '\'' :: '\'' :: '\'' :: r => some (['\''], r)
  | '\'' :: '\'' :: '\'' :: r => some ([], r)
  | '\r' :: '\n' :: r => prepend '\r' (prepend '\n' (literalLines r))
  | '\n' :: r => prepend '\n' (literalLines r)
  | c :: r => if isControl c then none else prepend c (literalLines r)

-- ==================================================== strings

/-- The string at the head of a text, and the rest. A line break right
behind three opening quotes does not count. -/
def read? : Text → Option (Text × Text)
  | '"' :: '"' :: '"' :: r => basicLines false (dropLineBreak r)
  | '"' :: r => basicTail r
  | '\'' :: '\'' :: '\'' :: r => literalLines (dropLineBreak r)
  | '\'' :: r => literalTail r
  | _ => none

/-- The string of one line at the head of a text, and the rest. -/
def readLine? : Text → Option (Text × Text)
  | '"' :: r => basicTail r
  | '\'' :: r => literalTail r
  | _ => none

end Quoted

end Toml

end SchemaAtlas
