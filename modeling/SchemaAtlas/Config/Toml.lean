/-
Settings from a configuration file. The file is a TOML document with
the sections `layout`, `style` and `analysis`; what a section does not
set keeps its default, and names that mean nothing are passed over. A
section may also be an array that lists its settings in order.
-/
import SchemaAtlas.Config.Basic
import SchemaAtlas.Toml.Reader

namespace SchemaAtlas

namespace Config

open Toml (Value)

-- ==================================================== settings

/-- An integer that a machine word holds, signed or unsigned. -/
def word? : Value → Option Int
  | .integer n => if -(Nat.pow 2 63 : Int) ≤ n ∧ n < (Nat.pow 2 64 : Int) then some n else none
  | _ => none

/-- A distance: any number, rounded to binary32. -/
def distance? : Value → Option Float32
  | .real l => if Value.isFiniteReal l then some l.toBinary64.toFloat32 else none
  | .infinity negative => some (if negative then -(1 / 0) else 1 / 0)
  | .notANumber => some (0 / 0)
  | v => (word? v).map Float32.ofInt

/-- A color as it is written. -/
def colorText? : Value → Option String
  | .string s => some s
  | _ => none

/-- A number of foreign keys. -/
def threshold? (v : Value) : Option Nat :=
  (word? v).bind fun n => if 0 ≤ n then some n.toNat else none

/-- A setting, or its default where it is not set. -/
def setting {α : Type} (read : Value → Option α) (default : α) : Option Value → Option α
  | none => some default
  | some v => read v

-- ==================================================== sections

/-- What a section sets, name by name. Whatever else a table holds must
be made of numbers that fit. -/
def settings? (names : List String) : Value → Option (List (Option Value))
  | .table _ entries =>
      if entries.all fun e => names.contains e.1 || e.2.fits then
        some (names.map fun name => Toml.lookup? name entries)
      else none
  | .array _ items => some ((List.range names.length).map fun i => items[i]?)
  | .dateTime => some (names.map fun _ => none)
  | _ => none

/-- The section of the two distances. -/
def spacing? (v : Value) : Option Spacing := do
  let d : Spacing := {}
  match ← settings? ["rank_spacing", "node_spacing"] v with
  | [rank, node] =>
      return ⟨← setting distance? d.rank rank, ← setting distance? d.node node⟩
  | _ => none

/-- The section of the two colors. -/
def colors? (v : Value) : Option EdgeColors := do
  let d : EdgeColors := {}
  match ← settings? ["foreign_key_color", "embedded_color"] v with
  | [foreignKey, embedded] =>
      return ⟨← setting colorText? d.foreignKey foreignKey,
        ← setting colorText? d.embedded embedded⟩
  | _ => none

/-- The section of the threshold. -/
def cascadeThreshold? (v : Value) : Option Nat := do
  let d : Config := {}
  match ← settings? ["cascade_threshold"] v with
  | [threshold] => setting threshold? d.cascadeThreshold threshold
  | _ => none

-- ==================================================== files

/-- The settings of a document. -/
def ofDocument? (v : Value) : Option Config := do
  let d : Config := {}
  match ← settings? ["layout", "style", "analysis"] v with
  | [layout, style, analysis] =>
      return ⟨← setting spacing? d.spacing layout, ← setting colors? d.colors style,
        ← setting cascadeThreshold? d.cascadeThreshold analysis⟩
  | _ => none

/-- The settings of a configuration file's text. -/
def ofToml? (t : Text) : Option Config :=
  (Toml.document? t).bind ofDocument?

end Config

end SchemaAtlas
