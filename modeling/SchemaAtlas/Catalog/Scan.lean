/-
Scanning inputs into a catalog. The tokens of a unit are counted from
the unit's own start; what is found at them is given in the coordinates
of the whole input, and merged in unit order.

- `SourceUnit.scan`: the findings of one unit.
- `UnitScan.of`: those of a text that is a unit by itself.
- `Catalog.add`: a unit's findings merged into a catalog.
- `Catalog.scan`: the catalog of an input.
-/
import SchemaAtlas.Catalog.Basic
import SchemaAtlas.Catalog.Shape
import SchemaAtlas.SourceUnit
import SchemaAtlas.Token.Lexer

namespace SchemaAtlas

namespace SourceUnit

/-- A text that is a unit by itself, at the start of its input. -/
def alone (name : Option String) (text : Text) : SourceUnit :=
  ⟨name, text, 0⟩

@[simp] theorem name_alone (name : Option String) (text : Text) :
    (alone name text).name = name := rfl

@[simp] theorem text_alone (name : Option String) (text : Text) :
    (alone name text).text = text := rfl

@[simp] theorem start_alone (name : Option String) (text : Text) :
    (alone name text).start = 0 := rfl

/-- A span of the unit's text, in the whole input. -/
def global (u : SourceUnit) (s : Span) : Span :=
  s.shift u.start

end SourceUnit

-- ==================================================== findings

/-- What a token list holds at one of its tokens. -/
inductive Finding
  | declaration (d : Declaration)
  | registration (r : Registration)
  | warning (w : Warning)
  deriving DecidableEq, Repr

namespace Finding

/-- The declaration that a finding is. -/
def declaration? : Finding → Option Declaration
  | .declaration d => some d
  | _ => none

/-- The registration that a finding is. -/
def registration? : Finding → Option Registration
  | .registration r => some r
  | _ => none

/-- The warning that a finding is. -/
def warning? : Finding → Option Warning
  | .warning w => some w
  | _ => none

/-- The statement in which a word stands, by the tokens in front of it,
nearest first. A receiver such as `mongoose.` is passed over. -/
def formAfter : List PlacedToken → RegistrationForm
  | [] => .direct
  | [_] => .direct
  | t :: u :: before =>
      if t.isMark .dot && u.token.identifier?.isSome then formAfter before
      else if t.token = .keyword .defaultWord && u.token = .keyword .exportWord then
        .defaultExport
      else
        match before with
        | v :: w :: _ =>
            if t.isMark .equals && u.token = .identifier "exports" && v.isMark .dot
                && w.token = .identifier "module" then .moduleExports
            else .direct
        | _ => .direct

/-- The declaration whose keyword stands in front of the tokens `ts` of
a unit, or a warning when its body is never closed. -/
def ofDeclaration (u : SourceUnit) (ts : List PlacedToken) : Option Finding :=
  match Shape.header? ts with
  | none => none
  | some h =>
      match Shape.closeBraces 0 h.behind with
      | none => some (.warning (.openBody h.name (u.global h.brace) (u.global h.nameSpan)))
      | some (_, close, _) =>
          some (.declaration
            ⟨h.name, u.text.slice h.brace.stop close.span.start, u.global h.nameSpan,
              h.brace.stop + u.start, u.name⟩)

/-- The registration whose word `model` stands at `word`, between the
tokens `before` (nearest first) and `ts`, or a warning when the call is
not given a schema identifier. -/
def ofModel (u : SourceUnit) (before : List PlacedToken) (word : Span)
    (ts : List PlacedToken) : Option Finding :=
  match Shape.call? ts with
  | none => none
  | some c =>
      match Shape.schemaArgument? c.behind with
      | some (schema, span) =>
          some (.registration ⟨c.model, schema, formAfter before, u.global (word.union span)⟩)
      | none =>
          let last := match c.behind with
            | t :: _ => t.span
            | [] => c.comma
          some (.warning (.malformedRegistration c.model (u.global (word.union last))))

/-- What stands at the token `t`. -/
def at? (u : SourceUnit) (before : List PlacedToken) (t : PlacedToken)
    (ts : List PlacedToken) : Option Finding :=
  match t.token with
  | .keyword k => if k.bindsName then ofDeclaration u ts else none
  | .identifier "model" => ofModel u before t.span ts
  | _ => none

/-- Everything found in the tokens behind `before`, in token order. -/
def all (u : SourceUnit) (before : List PlacedToken) : List PlacedToken → List Finding
  | [] => []
  | t :: ts =>
      match at? u before t ts with
      | some f => f :: all u (t :: before) ts
      | none => all u (t :: before) ts

end Finding

-- ==================================================== units

/-- The findings of one unit, apart by kind. -/
structure UnitScan where
  declarations : List Declaration
  registrations : List Registration
  warnings : List Warning
  deriving DecidableEq, Repr

/-- The findings of a unit in the coordinates of the whole input.
Warnings of the lexer, who counts from the start of the unit, come
before those of the matching. -/
def SourceUnit.scan (u : SourceUnit) : UnitScan :=
  let tokens := tokenize u.text
  let findings := Finding.all u [] (significant tokens)
  { declarations := findings.filterMap Finding.declaration?
    registrations := findings.filterMap Finding.registration?
    warnings := Warning.collect [] (lexWarnings tokens) u.start ++
      findings.filterMap Finding.warning? }

namespace UnitScan

/-- The findings in a text that is a unit by itself, under the given
name. -/
def of (name : Option String) (text : Text) : UnitScan :=
  (SourceUnit.alone name text).scan

/-- The findings moved right by `n` bytes. -/
def shift (s : UnitScan) (n : Nat) : UnitScan :=
  { declarations := s.declarations.map (·.shift n)
    registrations := s.registrations.map (·.shift n)
    warnings := s.warnings.map (·.shift n) }

end UnitScan

-- ==================================================== inputs

namespace Catalog

/-- The catalog with the findings of one more unit: its warnings, then
its declarations, then its registrations. The findings are where they
belong in the input already. -/
def add (c : Catalog) (s : UnitScan) : Catalog :=
  let warned := { c with warnings := Warning.collect c.warnings s.warnings 0 }
  s.registrations.foldl register (s.declarations.foldl declare warned)

/-- The catalog of a list of units, without the check for unknown
schemas. -/
def ofUnits (us : List SourceUnit) : Catalog :=
  us.foldl (fun c u => c.add u.scan) empty

/-- The catalog of an input. Registrations are checked against the
declarations of all units, once every unit is in. -/
def scan (input : Text) : Catalog :=
  let c := ofUnits (SourceUnit.split input)
  { c with warnings := c.warnings ++ c.unknownSchemas }

end Catalog

end SchemaAtlas
