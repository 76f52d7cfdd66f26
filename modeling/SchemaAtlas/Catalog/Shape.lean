/-
Shapes of declarations and registrations, matched on the significant
tokens of a unit. Each matcher reads from the front of a token list and
returns what is left behind the shape.

- declarations: `Name = [new] path.Schema [<...>] ( {` after a keyword
- registrations: `[<...>] ( 'Name' , Schema` after the word `model`
-/
import SchemaAtlas.Token.Basic

namespace SchemaAtlas

namespace Shape

-- ==================================================== parts

/-- A dotted path of identifiers: its last segment and what follows. The
path goes on as long as a dot is followed by an identifier. -/
def dottedPath : List PlacedToken → Option (String × List PlacedToken)
  | [] => none
  | t :: ts =>
      match t.token with
      | .identifier name =>
          match ts with
          | d :: rest =>
              if d.isMark .dot then
                match dottedPath rest with
                | some path => some path
                | none => some (name, d :: rest)
              else some (name, d :: rest)
          | [] => some (name, [])
      | _ => none

/-- Reads on to the angle bracket that closes `depth + 1` open ones, and
returns what follows. A semicolon or a parenthesis ends the attempt. -/
def closeAngles (depth : Nat) : List PlacedToken → Option (List PlacedToken)
  | [] => none
  | t :: ts =>
      match t.token with
      | .mark .leftAngle => closeAngles (depth + 1) ts
      | .mark .rightAngle =>
          match depth with
          | 0 => some ts
          | depth + 1 => closeAngles depth ts
      | .mark .semicolon | .mark .leftParen => none
      | _ => closeAngles depth ts

/-- What follows an optional list of type arguments. -/
def skipTypeArguments : List PlacedToken → Option (List PlacedToken)
  | [] => some []
  | t :: ts => if t.isMark .leftAngle then closeAngles 0 ts else some (t :: ts)

/-- The tokens in front of the brace that closes `depth + 1` open ones,
that brace, and what follows. -/
def closeBraces (depth : Nat) :
    List PlacedToken → Option (List PlacedToken × PlacedToken × List PlacedToken)
  | [] => none
  | t :: ts =>
      match t.token with
      | .mark .rightBrace =>
          match depth with
          | 0 => some ([], t, ts)
          | depth + 1 => (closeBraces depth ts).map fun b => (t :: b.1, b.2)
      | .mark .leftBrace => (closeBraces (depth + 1) ts).map fun b => (t :: b.1, b.2)
      | _ => (closeBraces depth ts).map fun b => (t :: b.1, b.2)

-- ==================================================== declarations

/-- The head of a schema declaration, through the brace that opens its
body, and the tokens behind that brace. -/
structure Header where
  name : String
  nameSpan : Span
  brace : Span
  behind : List PlacedToken

/-- What follows an optional `new`. -/
def skipNew : List PlacedToken → List PlacedToken
  | [] => []
  | t :: ts => if t.token = .keyword .newWord then ts else t :: ts

/-- The head of a schema declaration whose keyword was just read. -/
def header? : List PlacedToken → Option Header
  | n :: e :: ts =>
      match n.token with
      | .identifier name =>
          if e.isMark .equals then
            match dottedPath (skipNew ts) with
            | some ("Schema", rest) =>
                match skipTypeArguments rest with
                | some (p :: b :: behind) =>
                    if p.isMark .leftParen && b.isMark .leftBrace then
                      some ⟨name, n.span, b.span, behind⟩
                    else none
                | _ => none
            | _ => none
          else none
      | _ => none
  | _ => none

-- ==================================================== registrations

/-- The head of a model registration through the comma behind the model
name, and the tokens behind that comma. -/
structure Call where
  model : String
  comma : Span
  behind : List PlacedToken

/-- The head of a registration whose word `model` was just read. A call
with one argument looks a model up and is none. -/
def call? (ts : List PlacedToken) : Option Call :=
  match skipTypeArguments ts with
  | some (p :: s :: c :: behind) =>
      if p.isMark .leftParen && c.isMark .comma then
        s.token.closedString?.map fun model => ⟨model, c.span, behind⟩
      else none
  | _ => none

/-- A schema identifier given as an argument: a comma or a closing
parenthesis follows it. -/
def schemaArgument? : List PlacedToken → Option (String × Span)
  | s :: t :: _ =>
      if t.isMark .rightParen || t.isMark .comma then
        s.token.identifier?.map fun name => (name, s.span)
      else none
  | _ => none

end Shape

end SchemaAtlas
