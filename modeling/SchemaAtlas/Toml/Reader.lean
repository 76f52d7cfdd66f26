/-
Reading TOML documents. A document is read statement by statement; each
statement ends with its line. Arrays and tables between braces may run
over several lines and end with a comma. They nest at most eighty deep,
and a key has at most eighty parts.

- `Toml.document?`: the table a whole text describes.
-/
import SchemaAtlas.Toml.Quoted
import SchemaAtlas.Toml.Scalar
import SchemaAtlas.Toml.Table

namespace SchemaAtlas

namespace Toml

-- ==================================================== blanks

/-- The text behind white space. -/
def skipSpaces (t : Text) : Text :=
  t.dropWhile isSpace

/-- The text behind white space, line breaks and comments; none if a
comment holds a control character. -/
def skipBlanks (inComment : Bool) : Text → Option Text
  | [] => some []
  | '\n' :: r => skipBlanks false r
  | '\r' :: '\n' :: r => skipBlanks false r
  | c :: r =>
      if inComment then if isControl c then none else skipBlanks true r
      else if c = '#' then skipBlanks true r
      else if isSpace c then skipBlanks false r
      else some (c :: r)

/-- The text behind the end of a line, on which at most white space and
a comment are left. -/
def behindLine (inComment : Bool) : Text → Option Text
  | [] => some []
  | '\n' :: r => some r
  | '\r' :: '\n' :: r => some r
  | c :: r =>
      if inComment then if isControl c then none else behindLine true r
      else if c = '#' then behindLine true r
      else if isSpace c then behindLine false r
      else none

-- ==================================================== keys

/-- Characters of a key without quotes. -/
def isKeyCharacter (c : Char) : Bool :=
  Text.isAsciiLetter c || Text.isDigit c || c = '_' || c = '-'

/-- One part of a key, and the rest. -/
def keyPart? (t : Text) : Option (String × Text) :=
  match Quoted.readLine? t with
  | some (s, r) => some (String.ofList s, r)
  | none =>
      let word := t.takeWhile isKeyCharacter
      if word.isEmpty then none else some (String.ofList word, t.dropWhile isKeyCharacter)

/-- A key of at most `n` parts, the parts before it being `path`, and
the rest behind white space. -/
def keyFrom? (path : List String) : Nat → Text → Option (Key × Text)
  | 0, _ => none
  | n + 1, t => do
      let (part, r) ← keyPart? t
      match skipSpaces r with
      | '.' :: r => keyFrom? (path ++ [part]) n (skipSpaces r)
      | r => return (⟨path, part⟩, r)

/-- How many parts a key may have. -/
def greatestParts : Nat := 80

/-- A key, and the rest behind white space. -/
def key? (t : Text) : Option (Key × Text) :=
  keyFrom? [] greatestParts t

-- ==================================================== values

/-- Characters that end a word. -/
def endsWord (c : Char) : Bool :=
  isSpace c || [',', ']', '}', '#', '\n', '\r'].contains c

/-- A word without quotes, and the rest. A date takes the time behind a
single blank with it. -/
def word (t : Text) : Text × Text :=
  let first := t.span fun c => !endsWord c
  match Scalar.behindDate? first.1, first.2 with
  | some [], ' ' :: h :: r =>
      if Text.isDigit h then
        let second := (h :: r).span fun c => !endsWord c
        (first.1 ++ ' ' :: second.1, second.2)
      else first
  | _, _ => first

/-- A value that is neither an array nor a table, and the rest. -/
def simpleValue? (t : Text) : Option (Value × Text) :=
  match t with
  | '"' :: _ | '\'' :: _ =>
      (Quoted.read? t).map fun p => (.string (String.ofList p.1), p.2)
  | _ => (Scalar.value? (word t).1).map fun v => (v, (word t).2)

mutual

/-- A value that nests at most `depth` deep, and the rest. Every step
takes one from `steps`. -/
def valueWithin? : Nat → Nat → Text → Option (Value × Text)
  | 0, _, _ => none
  | steps + 1, depth, t =>
      match t, depth with
      | '[' :: _, 0 => none
      | '{' :: _, 0 => none
      | '[' :: r, depth + 1 =>
          (itemsWithin? steps depth r).map fun p => (.array .inline p.1, p.2)
      | '{' :: r, depth + 1 =>
          (membersWithin? steps depth r).bind fun p =>
            (Value.ofMembers p.1).map fun v => (v, p.2)
      | t, _ => simpleValue? t

/-- The items of an array up to its closing bracket, and the rest. -/
def itemsWithin? : Nat → Nat → Text → Option (List Value × Text)
  | 0, _, _ => none
  | steps + 1, depth, t => do
      match ← skipBlanks false t with
      | ']' :: r => return ([], r)
      | t =>
          let (v, t) ← valueWithin? steps depth t
          match ← skipBlanks false t with
          | ',' :: r =>
              let (vs, r) ← itemsWithin? steps depth r
              return (v :: vs, r)
          | ']' :: r => return ([v], r)
          | _ => none

/-- The members of a table up to its closing brace, and the rest. -/
def membersWithin? : Nat → Nat → Text → Option (List (Key × Value) × Text)
  | 0, _, _ => none
  | steps + 1, depth, t => do
      match ← skipBlanks false t with
      | '}' :: r => return ([], r)
      | t =>
          let (key, t) ← key? t
          match ← skipBlanks false t with
          | '=' :: r =>
              let (v, t) ← valueWithin? steps depth (← skipBlanks false r)
              match ← skipBlanks false t with
              | ',' :: r =>
                  let (ms, r) ← membersWithin? steps depth r
                  return ((key, v) :: ms, r)
              | '}' :: r => return ([(key, v)], r)
              | _ => none
          | _ => none

end

/-- How deep arrays and tables may nest. -/
def greatestDepth : Nat := 80

/-- A value, and the rest. No step is taken without a character, apart
from one at each end. -/
def value? (t : Text) : Option (Value × Text) :=
  valueWithin? (2 * t.length + 2) greatestDepth t

-- ==================================================== statements

/-- The statement at the head of a text, and the rest. -/
def statement? (t : Text) : Option (Statement × Text) := do
  match t with
  | '[' :: '[' :: r =>
      match ← key? (skipSpaces r) with
      | (key, ']' :: ']' :: r) => return (.itemHeader key, r)
      | _ => none
  | '[' :: r =>
      match ← key? (skipSpaces r) with
      | (key, ']' :: r) => return (.header key, r)
      | _ => none
  | _ =>
      match ← key? t with
      | (key, '=' :: r) =>
          let (v, r) ← value? (skipSpaces r)
          return (.assignment key v, r)
      | _ => none

/-- The statements of a text of at most `n` statements. -/
def statementsWithin? : Nat → Text → Option (List Statement)
  | 0, _ => none
  | n + 1, t => do
      match ← skipBlanks false t with
      | [] => return []
      | t =>
          let (s, r) ← statement? t
          let r ← behindLine false r
          return s :: (← statementsWithin? n r)

/-- The table a whole text describes. A mark for the order of bytes may
stand in front. -/
def document? (t : Text) : Option Value :=
  let body := match t with
    | '\uFEFF' :: r => r
    | t => t
  (statementsWithin? (body.length + 1) body).bind Statement.run

end Toml

end SchemaAtlas
