/-
Points and strokes: what a layout is drawn with. Coordinates and widths
are binary32 numbers.
-/
import SchemaAtlas.Color.Basic
import SchemaAtlas.Json.Value

namespace SchemaAtlas

/-- A place in the plane; `y` grows downward. -/
structure Point where
  x : Float32
  y : Float32

/-- A point as part of a document. -/
def Point.document (p : Point) : Json.Value :=
  .object [("x", .real p.x), ("y", .real p.y)]

/-- How a line is drawn. -/
structure Stroke where
  color : Color := .black
  width : Float32 := 1
  animated : Bool := false

/-- A stroke as part of a document. -/
def Stroke.document (s : Stroke) : Json.Value :=
  .object
    [("color", .string s.color.hex),
     ("strokeWidth", .real s.width),
     ("animated", .boolean s.animated)]

end SchemaAtlas
