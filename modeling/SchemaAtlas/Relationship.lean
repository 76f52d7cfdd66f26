/-
Relationships between schemas. A relationship leads from the schema
that owns a field to the schema the field refers to. It tells how the
reference is made and whether deleting the target can break it; both are
fixed by the constructor, `Relationship.foreignKey` or
`Relationship.embedded`.
-/
import SchemaAtlas.Json.Value

namespace SchemaAtlas

/-- How a field points at its target. -/
inductive ReferenceMechanism
  /-- An identifier naming the target's model. -/
  | foreignKey
  /-- The target's shape nested in the field. -/
  | embedded
  deriving DecidableEq, Repr

namespace ReferenceMechanism

/-- The word written for a mechanism. -/
def label : ReferenceMechanism → String
  | foreignKey => "ForeignKey"
  | embedded => "Embedded"

/-- Every mechanism. -/
def all : List ReferenceMechanism :=
  [foreignKey, embedded]

end ReferenceMechanism

-- ==================================================== kinds

/-- Mechanism and cardinality of a relationship. -/
inductive RelationKind
  | oneToOne
  | oneToMany
  | embeddedOne
  | embeddedMany
  deriving DecidableEq, Repr

namespace RelationKind

/-- The word written for a kind. -/
def label : RelationKind → String
  | oneToOne => "one-to-one"
  | oneToMany => "one-to-many"
  | embeddedOne => "embedded-one"
  | embeddedMany => "embedded-many"

/-- Every kind. -/
def all : List RelationKind :=
  [oneToOne, oneToMany, embeddedOne, embeddedMany]

/-- The kind written `label`, if there is one. -/
def ofLabel? (label : String) : Option RelationKind :=
  all.find? fun k => k.label == label

/-- Whether the field holds any number of references. -/
def isMany : RelationKind → Bool
  | oneToOne | embeddedOne => false
  | oneToMany | embeddedMany => true

/-- The foreign-key kind of the given cardinality. -/
def foreignKey (many : Bool) : RelationKind :=
  if many then oneToMany else oneToOne

/-- The embedded kind of the given cardinality. -/
def embedding (many : Bool) : RelationKind :=
  if many then embeddedMany else embeddedOne

end RelationKind

-- ==================================================== relationships

/-- A directed edge from the schema `source`, which owns `field`, to
the schema `target`. The target need not exist. -/
structure Relationship where
  source : String
  target : String
  field : String
  kind : RelationKind
  /-- How the field refers to the target. -/
  mechanism : ReferenceMechanism
  /-- Whether deleting the target can leave the field dangling. -/
  deletionRisk : Bool
  deriving DecidableEq, Repr

namespace Relationship

/-- A foreign key, which deleting its target leaves dangling. The kind
is one of the kinds of foreign keys. -/
def foreignKey (source target field : String) (kind : RelationKind) : Relationship :=
  ⟨source, target, field, kind, .foreignKey, true⟩

/-- An embedded schema, or any number of them. Nothing can dangle. -/
def embedded (source target field : String) (many : Bool) : Relationship :=
  ⟨source, target, field, .embedding many, .embedded, false⟩

/-- A relationship as part of a document. -/
def document (r : Relationship) : Json.Value :=
  .object
    [("from", .string r.source),
     ("to", .string r.target),
     ("field", .string r.field),
     ("kind", .string r.kind.label),
     ("referenceMechanism", .string r.mechanism.label),
     ("deletionRisk", .boolean r.deletionRisk)]

end Relationship

end SchemaAtlas
