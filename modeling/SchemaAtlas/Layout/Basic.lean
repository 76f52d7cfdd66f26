/-
The layered layout of a graph. Ranks are columns at a fixed distance;
the schemas of one rank are spread evenly around the line `y = 0`.
Relationships become styled edges, one each, in their order.

- `Layout.of`: the layout of a graph under given options.
- `Layout.document`: a layout as a document.
-/
import SchemaAtlas.Layout.Drawing
import SchemaAtlas.Layout.Ranking
import SchemaAtlas.Layout.Spacing

namespace SchemaAtlas

/-- Edge colors by mechanism. -/
structure Palette where
  foreignKey : Color := .ofHex 0xC17532
  embedded : Color := .ofHex 0x7A5C3A

/-- The color of a mechanism. -/
def Palette.color (p : Palette) : ReferenceMechanism → Color
  | .foreignKey => p.foreignKey
  | .embedded => p.embedded

/-- What a layout can be told. -/
structure LayoutOptions where
  spacing : Spacing := {}
  palette : Palette := {}

-- ==================================================== parts

/-- A placed schema. -/
structure LayoutNode where
  id : String
  rank : Nat
  position : Point

/-- A placed schema as part of a document. -/
def LayoutNode.document (n : LayoutNode) : Json.Value :=
  .object
    [("id", .string n.id),
     ("rank", .natural n.rank),
     ("position", n.position.document)]

/-- A styled relationship. -/
structure LayoutEdge where
  id : String
  source : String
  target : String
  /-- The name of the field that holds the reference. -/
  label : String
  kind : RelationKind
  mechanism : ReferenceMechanism
  style : Stroke

namespace LayoutEdge

/-- The edge of the relationship at position `index` of the graph. Edges
to many are drawn wider, and animated. -/
def of (palette : Palette) (index : Nat) (r : Relationship) : LayoutEdge where
  id := r.source ++ "-" ++ r.target ++ "-" ++ Nat.repr index
  source := r.source
  target := r.target
  label := r.field
  kind := r.kind
  mechanism := r.mechanism
  style := ⟨palette.color r.mechanism, if r.kind.isMany then 2 else 1, r.kind.isMany⟩

/-- A styled relationship as part of a document. -/
def document (e : LayoutEdge) : Json.Value :=
  .object
    [("id", .string e.id),
     ("source", .string e.source),
     ("target", .string e.target),
     ("label", .string e.label),
     ("kind", .string e.kind.label),
     ("referenceMechanism", .string e.mechanism.label),
     ("style", e.style.document)]

end LayoutEdge

-- ==================================================== layout

/-- Placed schemas in schema order, edges in relationship order. -/
structure Layout where
  nodes : List LayoutNode
  edges : List LayoutEdge

namespace Layout

/-- The place of slot `slot` among `count` on a rank. -/
def position (s : Spacing) (rank slot count : Nat) : Point where
  x := Float32.ofNat rank * s.rank
  y := (Float32.ofNat slot - (Float32.ofNat count - 1) / 2) * s.node

/-- The schema `id`, placed by a ranking. -/
def place (s : Spacing) (r : Ranking) (id : String) : LayoutNode :=
  let rank := r.rankOf id
  ⟨id, rank, position s rank (r.slot id) (r.column rank).length⟩

/-- The layout of a graph whose spacing was found usable. -/
def arrange (options : LayoutOptions) (g : SchemaGraph) : Layout :=
  let ranking := Ranking.of (Adjacency.of g)
  { nodes := ranking.ranks.keys.map (place options.spacing ranking)
    edges := g.relationships.mapIdx (LayoutEdge.of options.palette) }

/-- The layout of a graph. -/
def of (options : LayoutOptions) (g : SchemaGraph) : Except SpacingFault Layout :=
  match options.spacing.fault? with
  | some f => .error f
  | none => .ok (arrange options g)

/-- A layout as a document. -/
def document (l : Layout) : Json.Value :=
  .object
    [("nodes", .array (l.nodes.map LayoutNode.document)),
     ("edges", .array (l.edges.map LayoutEdge.document))]

end Layout

end SchemaAtlas
