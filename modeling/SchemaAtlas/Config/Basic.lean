/-
Settings of an analysis: spacing of the layout, colors of its edges,
and the number of foreign keys from which a schema is reported. Colors
are kept as they were written.

- `Config.validate`: whether settings can be used, and the first reason
  why not.
- `Config.layoutOptions`: what the settings tell a layout, the colors
  read.

Both are told how colors are read.
-/
import SchemaAtlas.Layout.Basic

namespace SchemaAtlas

/-- Colors of edges, as they are written in style sheets. -/
structure EdgeColors where
  foreignKey : String := "#c17532"
  embedded : String := "#7a5c3a"
  deriving DecidableEq, Repr

/-- Settings of an analysis. -/
structure Config where
  spacing : Spacing := {}
  colors : EdgeColors := {}
  /-- A schema with more foreign keys than this is reported. -/
  cascadeThreshold : Nat := 2

instance : Inhabited Config := ⟨{}⟩

-- ==================================================== faults

/-- Why settings cannot be used. -/
inductive ConfigFault
  | spacing (f : SpacingFault)
  | color (mechanism : ReferenceMechanism) (f : ColorFault)

namespace ConfigFault

/-- The name of a distance among the settings. -/
def setting : Gap → String
  | .betweenRanks => "layout.rank_spacing"
  | .betweenNodes => "layout.node_spacing"

/-- The color of a mechanism in words. -/
def colorName : ReferenceMechanism → String
  | .foreignKey => "foreign key color"
  | .embedded => "embedded color"

/-- The fault in words. -/
def message : ConfigFault → String
  | spacing f => f.report (setting f.gap)
  | color mechanism f => "Invalid " ++ colorName mechanism ++ " in config: " ++ f.message

end ConfigFault

-- ==================================================== checks

/-- The color of a mechanism as it is written. -/
def EdgeColors.text (c : EdgeColors) : ReferenceMechanism → String
  | .foreignKey => c.foreignKey
  | .embedded => c.embedded

namespace EdgeColors

/-- The color of a mechanism. -/
def color (c : EdgeColors) (readColor : ColorReader) (mechanism : ReferenceMechanism) :
    Except ConfigFault Color :=
  (Color.read readColor (c.text mechanism)).mapError (.color mechanism)

/-- Both colors, that of foreign keys read first. -/
def palette (c : EdgeColors) (readColor : ColorReader) : Except ConfigFault Palette := do
  let foreignKey ← c.color readColor .foreignKey
  let embedded ← c.color readColor .embedded
  return ⟨foreignKey, embedded⟩

end EdgeColors

namespace Config

/-- The layout options of settings, spacing unchecked. -/
def layoutOptions (c : Config) (readColor : ColorReader) : Except ConfigFault LayoutOptions := do
  let palette ← c.colors.palette readColor
  return ⟨c.spacing, palette⟩

/-- Checks that settings can be used: spacing first, then the color of
foreign keys, then that of embedded schemas. -/
def validate (c : Config) (readColor : ColorReader) : Except ConfigFault Unit :=
  match c.spacing.fault? with
  | some f => .error (.spacing f)
  | none => do
      let _ ← c.colors.color readColor .foreignKey
      let _ ← c.colors.color readColor .embedded
      return ()

end Config

end SchemaAtlas
