/-
References of field definitions. A field refers to at most one schema;
the rules are tried in order and the first that applies decides.

1. An `ObjectId` type followed by a `ref`: a foreign key, to many if
   the definition is array shaped.
2. An object in an array that holds both in any order: a foreign key to
   many.
3. A `ref` that no `ObjectId` type precedes: a foreign key, to many as
   in rule 1.
4. Another declared schema in the place of a value: embedded, many if
   it stands inside brackets.
-/
import SchemaAtlas.Catalog.Basic
import SchemaAtlas.Catalog.Shape
import SchemaAtlas.Field
import SchemaAtlas.Relationship

namespace SchemaAtlas

/-- What a definition refers to, and how. -/
inductive Reference
  | foreignKey (target : String) (kind : RelationKind)
  | embedded (target : String) (many : Bool)
  deriving DecidableEq, Repr

namespace Reference

-- ==================================================== markers

/-- The last segment of a dotted path, by its last segment so far and
the tokens behind that. -/
def pathEnd? (last : Option String) : List PlacedToken → Option String
  | d :: n :: ts =>
      match n.token.identifier? with
      | some name => if d.isMark .dot then pathEnd? (some name) ts else last
      | none => last
  | _ => last

/-- Whether a token list begins with a type whose last name is
`ObjectId`. Any token may stand at the head of a dotted type. -/
def beginsIdType : List PlacedToken → Bool
  | t :: c :: h :: ts =>
      t.token = .identifier "type" && c.isMark .colon
        && pathEnd? h.token.identifier? ts = some "ObjectId"
  | _ => false

/-- The target of the `ref` that a token list begins with. -/
def refTarget? : List PlacedToken → Option String
  | t :: c :: s :: _ =>
      if t.token = .identifier "ref" && c.isMark .colon then s.token.closedString? else none
  | _ => none

/-- The target of the first `ref` in a token list. -/
def firstRef? : List PlacedToken → Option String
  | [] => none
  | t :: ts =>
      match refTarget? (t :: ts) with
      | some target => some target
      | none => firstRef? ts

/-- What follows the word of the first `ObjectId` type, if there is one. -/
def behindIdType? : List PlacedToken → Option (List PlacedToken)
  | [] => none
  | t :: ts => if beginsIdType (t :: ts) then some ts else behindIdType? ts

/-- Whether an `ObjectId` type begins at one of the first `n` tokens. -/
def holdsIdType : Nat → List PlacedToken → Bool
  | 0, _ => false
  | _ + 1, [] => false
  | n + 1, t :: ts => beginsIdType (t :: ts) || holdsIdType n ts

/-- The target of the first `ref` that no `ObjectId` type precedes. -/
def refBeforeIdType? : List PlacedToken → Option String
  | [] => none
  | t :: ts =>
      if beginsIdType (t :: ts) then none
      else
        match refTarget? (t :: ts) with
        | some target => some target
        | none => refBeforeIdType? ts

-- ==================================================== shape

/-- Whether a token list begins with an array around an object. -/
def beginsObjectArray : List PlacedToken → Bool
  | t :: u :: _ => t.isMark .leftBracket && u.isMark .leftBrace
  | _ => false

/-- Whether an array around an object occurs. -/
def holdsObjectArray : List PlacedToken → Bool
  | [] => false
  | t :: ts => beginsObjectArray (t :: ts) || holdsObjectArray ts

/-- An array, or something that holds an array around an object. -/
def isArrayShaped : List PlacedToken → Bool
  | [] => false
  | t :: ts => t.isMark .leftBracket || holdsObjectArray (t :: ts)

-- ==================================================== rules

/-- Rule 1. -/
def typedTarget? (ts : List PlacedToken) : Option String :=
  (behindIdType? ts).bind firstRef?

/-- The target of an object that holds an `ObjectId` type and a `ref`,
by the tokens behind its opening brace. -/
def objectTarget? (ts : List PlacedToken) : Option String :=
  match Shape.closeBraces 0 ts with
  | some (inside, _, _) =>
      if holdsIdType inside.length ts then firstRef? inside else none
  | none => none

/-- Rule 2: the first object in an array that qualifies. -/
def arrayTarget? : List PlacedToken → Option String
  | [] => none
  | t :: ts =>
      match (if beginsObjectArray (t :: ts) then objectTarget? ts.tail else none) with
      | some target => some target
      | none => arrayTarget? ts

/-- Whether an identifier after the token `before`, inside as many
brackets as `brackets` says, stands in the place of a value. -/
def isValuePlace (before : Option PlacedToken) (brackets : Nat) : Bool :=
  match before with
  | none => true
  | some t =>
      t.isMark .colon || t.isMark .leftBracket || (0 < brackets && t.isMark .comma)

/-- The number of open brackets after a token. -/
def bracketsAfter (t : PlacedToken) (brackets : Nat) : Nat :=
  if t.isMark .leftBracket then brackets + 1
  else if t.isMark .rightBracket then brackets - 1
  else brackets

/-- The display name of another schema that the token `t` names as a
value, given the token before it and the tokens behind it. -/
def embeddedAt? (schema : String) (catalog : Catalog) (brackets : Nat)
    (before : Option PlacedToken) (t : PlacedToken) (behind : List PlacedToken) :
    Option String :=
  match t.token with
  | .identifier name =>
      let dotted := match behind with
        | d :: _ => d.isMark .dot
        | [] => false
      if isValuePlace before brackets && !dotted && catalog.declares name
          && catalog.displayName name ≠ schema then
        some (catalog.displayName name)
      else none
  | _ => none

/-- Rule 4: the first other schema in the place of a value, and whether
it stands inside brackets. Mentions of `schema` itself are passed over. -/
def embedded? (schema : String) (catalog : Catalog) (brackets : Nat)
    (before : Option PlacedToken) : List PlacedToken → Option (String × Bool)
  | [] => none
  | t :: ts =>
      match embeddedAt? schema catalog brackets before t ts with
      | some target => some (target, 0 < brackets)
      | none => embedded? schema catalog (bracketsAfter t brackets) (some t) ts

-- ==================================================== the reference

/-- The reference in a definition's significant tokens, for a field of
`schema`. -/
def read? (schema : String) (catalog : Catalog) (ts : List PlacedToken) : Option Reference :=
  match typedTarget? ts with
  | some target => some (.foreignKey target (.foreignKey (isArrayShaped ts)))
  | none =>
      match arrayTarget? ts with
      | some target => some (.foreignKey target .oneToMany)
      | none =>
          match refBeforeIdType? ts with
          | some target => some (.foreignKey target (.foreignKey (isArrayShaped ts)))
          | none =>
              (embedded? schema catalog 0 none ts).map fun e => .embedded e.1 e.2

/-- The relationship that starts at a field with this reference. -/
def relationship (source field : String) : Reference → Relationship
  | foreignKey target kind => .foreignKey source target field kind
  | embedded target many => .embedded source target field many

end Reference

/-- The relationship that a field of the schema shown as `schema`
stands for, if it refers to another schema. -/
def Field.relationship? (schema : String) (f : Field) (catalog : Catalog) :
    Option Relationship :=
  (Reference.read? schema catalog (significant (tokenize f.definition))).map
    (Reference.relationship schema f.name)

end SchemaAtlas
