/-
Fields of a schema body. Commas outside every brace, bracket and
parenthesis separate the entries of a body; an entry with a colon at
its top level is a field, the others are skipped.

- `Segment.split`: the entries of a token list.
- `Field.ofSegment?`: the field an entry is.
- `Field.split`: the fields of a body.
-/
import SchemaAtlas.Token.Lexer

namespace SchemaAtlas

/-- One top-level `name: definition` entry of a body. -/
structure Field where
  /-- The name, without quotes if the key was quoted. -/
  name : String
  /-- The text behind the colon, trimmed. -/
  definition : Text
  /-- The whole entry, counted from the start of the body. -/
  span : Span
  deriving DecidableEq, Repr

-- ==================================================== entries

/-- The tokens of one entry, and where the entry ends. -/
structure Segment where
  tokens : List PlacedToken
  stop : Nat

namespace Segment

/-- The entries of a token list that begins at the given bracket depth
and ends at byte `stop`; the first one bears what is left of the entry
already begun. -/
def split (stop depth : Nat) : List PlacedToken → Segment × List Segment
  | [] => (⟨[], stop⟩, [])
  | t :: ts =>
      if depth = 0 && t.isMark .comma then
        let later := split stop 0 ts
        (⟨[], t.span.start⟩, later.1 :: later.2)
      else
        let later := split stop (t.token.depthAfter depth) ts
        ({ later.1 with tokens := t :: later.1.tokens }, later.2)

/-- The first colon outside all brackets of a token list that begins at
the given depth. -/
def colon? (depth : Nat) : List PlacedToken → Option PlacedToken
  | [] => none
  | t :: ts =>
      if depth = 0 && t.isMark .colon then some t
      else colon? (t.token.depthAfter depth) ts

end Segment

-- ==================================================== fields

namespace Field

/-- The name of a field whose key has the given text and begins with
the token `first`. A key that is one closed string is its content. -/
def nameOf (first : PlacedToken) (key : Text) : String :=
  match first.token.closedString? with
  | some content => if first.span.size = key.width then content else String.ofList key
  | none => String.ofList key

/-- Names that are empty or hold white space are not supported. -/
def isSupportedName (name : String) : Bool :=
  !name.toList.isEmpty && !name.toList.any Text.isBlank

/-- The field that an entry of the body is, if it is one. -/
def ofSegment? (body : Text) (s : Segment) : Option Field :=
  match s.tokens.dropWhile fun t => t.token.isTrivia with
  | [] => none
  | first :: ts =>
      match Segment.colon? 0 (first :: ts) with
      | none => none
      | some colon =>
          let key := Text.trim (body.slice first.span.start colon.span.start)
          let name := nameOf first key
          if isSupportedName name then
            some ⟨name, Text.trim (body.slice colon.span.stop s.stop),
              Span.of first.span.start s.stop⟩
          else none

/-- The fields of a body, in source order. -/
def split (body : Text) : List Field :=
  let segments := Segment.split body.width 0 (tokenize body)
  (segments.1 :: segments.2).filterMap (ofSegment? body)

end Field

end SchemaAtlas
