/-
Blueprints: schemas as an author would list them, the source text that
declares them, and the graph they stand for. A blueprint says of every
schema how it is declared, under which model it is registered, and of
every field whether it holds plain data, refers to a model, or nests
another schema. Two schemas, the second of them registered, come out as

  const PetSchema = new Schema({ name: String, owner: UserSchema });
  let UserSchema = mongoose.Schema<User>({ home: [{ type: ..., ref: 'Town' }] });
  model('User', UserSchema);

- `Blueprint.render`: the source text of a blueprint, one declaration a
  line and then one registration a line.
- `Blueprint.graph`: the graph of a blueprint, read off its lists.
- `Blueprint.Valid`: names are distinct and nested schemas exist.
-/
import SchemaAtlas.Extraction
import SchemaAtlas.Proofs.Token.Lexeme

namespace SchemaAtlas

namespace Blueprint

-- ==================================================== plans

/-- How a field is defined. -/
inductive Shape
  /-- A type that is no schema. -/
  | plain (type : Word)
  /-- An id of the model `target`, or any number of them. -/
  | reference (many : Bool) (target : Quotable)
  /-- Another schema of the blueprint, or any number of it. -/
  | nested (many : Bool) (schema : Word)
  deriving DecidableEq

/-- A field of a schema. -/
structure FieldPlan where
  name : Word
  shape : Shape
  deriving DecidableEq

/-- A schema: the wording of its declaration, its fields, and the model
it is registered as. -/
structure SchemaPlan where
  /-- One of `const`, `let` and `var`. -/
  keyword : Keyword
  bindsName_keyword : keyword.bindsName = true
  name : Word
  name_not_reserved : name.isReserved = false
  /-- Whether `new` is written. -/
  constructed : Bool
  /-- Whether `mongoose.` is written. -/
  qualified : Bool
  typeArgument : Option Word
  fields : List FieldPlan
  model : Option Quotable
  deriving DecidableEq

-- ==================================================== source text

/-- A lexeme list, in brackets if asked for. -/
def bracketed (many : Bool) (ps : List Lexeme) : List Lexeme :=
  if many then .mark .leftBracket :: (ps ++ [.mark .rightBracket]) else ps

/-- The text ` type: Schema.Types.ObjectId, ref: 'target' `. -/
def idMembers (target : Quotable) : List Lexeme :=
  [.blank, .word ⟨"type".toList, rfl⟩, .mark .colon, .blank,
   .word ⟨"Schema".toList, rfl⟩, .mark .dot, .word ⟨"Types".toList, rfl⟩, .mark .dot,
   .word ⟨"ObjectId".toList, rfl⟩, .mark .comma, .blank, .word ⟨"ref".toList, rfl⟩,
   .mark .colon, .blank, .quoted target, .blank]

/-- A reference by id, the members above between braces. -/
def idReference (target : Quotable) : List Lexeme :=
  .mark .leftBrace :: idMembers target ++ [.mark .rightBrace]

/-- The definition of a field. -/
def Shape.lexemes : Shape → List Lexeme
  | plain type => [.word type]
  | reference many target => bracketed many (idReference target)
  | nested many schema => bracketed many [.word schema]

/-- The text ` name: definition`. -/
def FieldPlan.lexemes (f : FieldPlan) : List Lexeme :=
  .blank :: .word f.name :: .mark .colon :: .blank :: f.shape.lexemes

/-- Fields with commas between them. -/
def fieldLexemes : List FieldPlan → List Lexeme
  | [] => []
  | [f] => f.lexemes
  | f :: fs => f.lexemes ++ .mark .comma :: fieldLexemes fs

namespace SchemaPlan

/-- The text between the braces of a declaration. -/
def body (s : SchemaPlan) : List Lexeme :=
  fieldLexemes s.fields ++ [.blank]

/-- The word that a declaration begins with. -/
def opening (s : SchemaPlan) : Word :=
  ⟨s.keyword.word.toList, by cases s.keyword <;> rfl⟩

/-- The word `new`, if it is written. -/
def newLexemes (s : SchemaPlan) : List Lexeme :=
  if s.constructed then [.word ⟨"new".toList, rfl⟩, .blank] else []

/-- The constructor, `Schema` or `mongoose.Schema`. -/
def pathLexemes (s : SchemaPlan) : List Lexeme :=
  if s.qualified then
    [.word ⟨"mongoose".toList, rfl⟩, .mark .dot, .word ⟨"Schema".toList, rfl⟩]
  else [.word ⟨"Schema".toList, rfl⟩]

/-- The type argument in angle brackets, if there is one. -/
def argumentLexemes (s : SchemaPlan) : List Lexeme :=
  match s.typeArgument with
  | some i => [.mark .leftAngle, .word i, .mark .rightAngle]
  | none => []

/-- The text between the first word and the opening brace of a
declaration, ` name = [new] [mongoose.]Schema[<I>](`. -/
def heading (s : SchemaPlan) : List Lexeme :=
  [.blank, .word s.name, .blank, .mark .equals, .blank] ++ s.newLexemes ++ s.pathLexemes
    ++ s.argumentLexemes ++ [.mark .leftParen]

/-- The line that declares a schema. -/
def declaration (s : SchemaPlan) : List Lexeme :=
  .word s.opening :: s.heading ++ .mark .leftBrace :: s.body
    ++ [.mark .rightBrace, .mark .rightParen, .mark .semicolon]

/-- The line that registers a schema, `model('Name', name);`, if it is
registered. -/
def registration? (s : SchemaPlan) : Option (List Lexeme) :=
  s.model.map fun m =>
    [.word ⟨"model".toList, rfl⟩, .mark .leftParen, .quoted m, .mark .comma, .blank,
     .word s.name, .mark .rightParen, .mark .semicolon]

end SchemaPlan

/-- The lines of a source: all declarations, then all registrations. -/
def sourceLines (b : List SchemaPlan) : List (List Lexeme) :=
  b.map SchemaPlan.declaration ++ b.filterMap SchemaPlan.registration?

/-- The lexemes of a source, every line with its line break. -/
def lexemes (b : List SchemaPlan) : List Lexeme :=
  Lexeme.unlines (sourceLines b)

/-- The source text of a blueprint. -/
def render (b : List SchemaPlan) : Text :=
  Lexeme.spell (lexemes b)

-- ==================================================== graph

/-- The name a schema is shown under: its model, or else its own name
without a trailing `Schema`. -/
def SchemaPlan.displayName (s : SchemaPlan) : String :=
  match s.model with
  | some m => String.ofList m.text
  | none => Catalog.stem s.name.name

/-- The schemas' own names. -/
def names (b : List SchemaPlan) : List Word :=
  b.map SchemaPlan.name

/-- The name that the schema called `name` is shown under. -/
def displayOf (b : List SchemaPlan) (name : Word) : String :=
  match b.find? fun s => s.name = name with
  | some s => s.displayName
  | none => name.name

/-- What a field of this shape refers to, and how. -/
def Shape.reference? (b : List SchemaPlan) : Shape → Option Reference
  | plain _ => none
  | reference many target => some (.foreignKey (String.ofList target.text) (.foreignKey many))
  | nested many schema => some (.embedded (displayOf b schema) many)

/-- The schema in the graph. -/
def SchemaPlan.node (s : SchemaPlan) : SchemaNode :=
  ⟨s.displayName, s.name.name, s.fields.map fun f => f.name.name⟩

/-- The relationships of a schema's fields, in their order. -/
def SchemaPlan.relationships (b : List SchemaPlan) (s : SchemaPlan) : List Relationship :=
  s.fields.filterMap fun f =>
    (f.shape.reference? b).map (Reference.relationship s.displayName f.name.name)

/-- The graph of a blueprint. -/
def graph (b : List SchemaPlan) : SchemaGraph :=
  ⟨b.map SchemaPlan.node, b.flatMap (SchemaPlan.relationships b)⟩

-- ==================================================== validity

/-- A shape that suits a field of the schema `owner`: plain types are no
schemas, and what is nested is another schema. -/
def Shape.Fits (names : List Word) (owner : Word) : Shape → Prop
  | plain type => type ∉ names
  | reference _ _ => True
  | nested _ schema => schema ∈ names ∧ schema ≠ owner

instance (names : List Word) (owner : Word) (s : Shape) : Decidable (s.Fits names owner) :=
  match s with
  | .plain type => inferInstanceAs (Decidable (type ∉ names))
  | .reference _ _ => inferInstanceAs (Decidable True)
  | .nested _ schema => inferInstanceAs (Decidable (schema ∈ names ∧ schema ≠ owner))

/-- The conditions under which a blueprint describes one graph. -/
structure Valid (b : List SchemaPlan) : Prop where
  nodup_names : (names b).Nodup
  nodup_displayNames : (b.map SchemaPlan.displayName).Nodup
  fits : ∀ s ∈ b, ∀ f ∈ s.fields, f.shape.Fits (names b) s.name

instance (b : List SchemaPlan) : Decidable (Valid b) :=
  decidable_of_iff ((names b).Nodup ∧ (b.map SchemaPlan.displayName).Nodup
      ∧ ∀ s ∈ b, ∀ f ∈ s.fields, f.shape.Fits (names b) s.name)
    ⟨fun h => ⟨h.1, h.2.1, h.2.2⟩, fun h => ⟨h.1, h.2, h.3⟩⟩

end Blueprint

end SchemaAtlas
