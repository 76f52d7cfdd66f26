/-
Spacing of a layout: the distance between neighbouring ranks and that
between neighbours on one rank. Both must be finite and not negative;
the rank spacing is checked first.
-/
import SchemaAtlas.Decimal.Format

namespace SchemaAtlas

/-- The two distances of a layout. -/
inductive Gap
  | betweenRanks
  | betweenNodes
  deriving DecidableEq, Repr

/-- Distances of a layout. -/
structure Spacing where
  rank : Float32 := 280
  node : Float32 := 120

/-- A distance that cannot be used. -/
structure SpacingFault where
  gap : Gap
  value : Float32

/-- A distance in words. -/
def Gap.label : Gap → String
  | betweenRanks => "rank spacing"
  | betweenNodes => "node spacing"

/-- The report about a distance that the reader knows as `name`. -/
def SpacingFault.report (f : SpacingFault) (name : String) : String :=
  name ++ " must be a non-negative number, got " ++ Decimal.plain.binary32 f.value

/-- Why a layout was refused, in words. -/
def SpacingFault.message (f : SpacingFault) : String :=
  f.report f.gap.label

namespace Spacing

/-- Whether a number can serve as a distance. -/
def isUsable (x : Float32) : Bool :=
  x.isFinite && !(x < 0)

/-- The first distance that cannot be used. -/
def fault? (s : Spacing) : Option SpacingFault :=
  if !isUsable s.rank then some ⟨.betweenRanks, s.rank⟩
  else if !isUsable s.node then some ⟨.betweenNodes, s.node⟩
  else none

end Spacing

end SchemaAtlas
