/-
The graph of schemas and relationships. Schemas keep the order of their
declaration and relationships the order of their fields. Nothing is
asked of the two lists: ids may repeat, and relationships may start or
end at schemas that are not listed.
-/
import SchemaAtlas.Relationship

namespace SchemaAtlas

/-- A schema under its display name. -/
structure SchemaNode where
  id : String
  declaredName : String
  fields : List String
  deriving DecidableEq, Repr

/-- A schema as part of a document. -/
def SchemaNode.document (n : SchemaNode) : Json.Value :=
  .object
    [("id", .string n.id),
     ("declaredName", .string n.declaredName),
     ("fields", .strings n.fields)]

/-- Schemas and the relationships between them. -/
structure SchemaGraph where
  schemas : List SchemaNode
  relationships : List Relationship
  deriving DecidableEq, Repr, Inhabited

namespace SchemaGraph

/-- The first schema of the given id. -/
def schema? (g : SchemaGraph) (id : String) : Option SchemaNode :=
  g.schemas.find? fun n => n.id = id

/-- Whether a schema has the given id. -/
def contains (g : SchemaGraph) (id : String) : Bool :=
  g.schemas.any fun n => n.id = id

/-- The distinct ids, in order of first occurrence. -/
def ids (g : SchemaGraph) : List String :=
  (g.schemas.map SchemaNode.id).eraseDups

/-- Relationships that start at `id`. -/
def outgoing (g : SchemaGraph) (id : String) : List Relationship :=
  g.relationships.filter fun r => r.source = id

/-- Relationships that end at `id`. -/
def incoming (g : SchemaGraph) (id : String) : List Relationship :=
  g.relationships.filter fun r => r.target = id

/-- A graph without schemas. -/
def isEmpty (g : SchemaGraph) : Bool :=
  g.schemas.isEmpty

/-- The two members of a graph's document. -/
def members (g : SchemaGraph) : List (String × Json.Value) :=
  [("schemas", .array (g.schemas.map SchemaNode.document)),
   ("relationships", .array (g.relationships.map Relationship.document))]

/-- A graph as a document of its own. -/
def document (g : SchemaGraph) : Json.Value :=
  .object g.members

end SchemaGraph

end SchemaAtlas
