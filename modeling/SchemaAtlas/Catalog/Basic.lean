/-
The catalog: all schema declarations and model registrations of an
input, under their schema identifiers. A later entry of the same
identifier replaces an earlier one and keeps its place.

- `Catalog.displayName`: the name a schema is shown under.
-/
import SchemaAtlas.Diagnostic.Warning
import SchemaAtlas.OrderedMap
import SchemaAtlas.Text.Basic

namespace SchemaAtlas

-- ==================================================== entries

/-- A schema bound to an identifier. -/
structure Declaration where
  name : String
  /-- The text between the braces of the schema's definition. -/
  body : Text
  /-- Where the identifier stands. -/
  span : Span
  /-- Where the body begins. -/
  bodyStart : Nat
  /-- The name of the source unit that holds the declaration. -/
  unit : Option String
  deriving DecidableEq, Repr

/-- The declaration moved right by `n` bytes. -/
def Declaration.shift (d : Declaration) (n : Nat) : Declaration :=
  { d with span := d.span.shift n, bodyStart := d.bodyStart + n }

/-- The statement a registration is part of. -/
inductive RegistrationForm
  /-- A call by itself or on the right of an assignment. -/
  | direct
  | defaultExport
  | moduleExports
  deriving DecidableEq, Repr

namespace RegistrationForm

/-- The words written for a form. -/
def label : RegistrationForm → String
  | direct => "direct"
  | defaultExport => "export default"
  | moduleExports => "module.exports"

/-- Every form. -/
def all : List RegistrationForm :=
  [direct, defaultExport, moduleExports]

end RegistrationForm

/-- A call that gives a schema the name of a model. -/
structure Registration where
  displayName : String
  schemaName : String
  form : RegistrationForm
  /-- From the word `model` to the schema identifier. -/
  span : Span
  deriving DecidableEq, Repr

/-- The registration moved right by `n` bytes. -/
def Registration.shift (r : Registration) (n : Nat) : Registration :=
  { r with span := r.span.shift n }

-- ==================================================== catalog

/-- Everything found in an input. -/
structure Catalog where
  declarations : OrderedMap String Declaration
  registrations : OrderedMap String Registration
  warnings : List Warning

namespace Catalog

/-- The catalog of an empty input. -/
def empty : Catalog :=
  ⟨.empty, .empty, []⟩

/-- Whether an identifier names a declared schema. -/
def declares (c : Catalog) (name : String) : Bool :=
  c.declarations.contains name

/-- A schema identifier without a trailing `Schema` in any case. An
identifier that is nothing but this word stays as it is. -/
def stem (name : String) : String :=
  let cs := name.toList
  let cut := cs.length - 6
  if 0 < cut ∧ (cs.drop cut).map Char.toLower = "schema".toList then String.ofList (cs.take cut)
  else name

/-- The name a schema is shown under: that of its registration, or else
the stem of its identifier. -/
def displayName (c : Catalog) (name : String) : String :=
  match c.registrations.get? name with
  | some r => r.displayName
  | none => stem name

-- ==================================================== additions

/-- The catalog with one more warning. -/
def warn (c : Catalog) (w : Warning) : Catalog :=
  { c with warnings := c.warnings ++ [w] }

/-- The catalog with one more declaration. A declaration of a name that
was declared before is reported. -/
def declare (c : Catalog) (d : Declaration) : Catalog :=
  let added := { c with declarations := c.declarations.insert d.name d }
  match c.declarations.get? d.name with
  | some earlier => added.warn (.redeclared d.name d.span earlier.span)
  | none => added

/-- The catalog with one more registration. -/
def register (c : Catalog) (r : Registration) : Catalog :=
  { c with registrations := c.registrations.insert r.schemaName r }

/-- Warnings about registrations of schemas that are not declared. -/
def unknownSchemas (c : Catalog) : List Warning :=
  c.registrations.values.filterMap fun r =>
    if c.declares r.schemaName then none
    else some (.unknownSchema r.displayName r.schemaName r.span)

end Catalog

end SchemaAtlas
