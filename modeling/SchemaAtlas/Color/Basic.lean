/-
Colors of strokes, three bytes without opacity, and how they are read. A
color is written in the language of style sheets, which is not settled
here: whoever reads a color is told by which reader.
-/
import SchemaAtlas.Text.Hex

namespace SchemaAtlas

/-- A color of the sRGB space. -/
structure Color where
  red : UInt8
  green : UInt8
  blue : UInt8
  deriving DecidableEq, Repr

namespace Color

/-- The color zero in every component. -/
def black : Color :=
  ⟨0, 0, 0⟩

/-- The color of a number `0xRRGGBB`. -/
def ofHex (n : Nat) : Color :=
  ⟨UInt8.ofNat (n / 0x10000), UInt8.ofNat (n / 0x100), UInt8.ofNat n⟩

private def hexByte (b : UInt8) : Text :=
  [Text.hexDigit (b.toNat / 16), Text.hexDigit (b.toNat % 16)]

/-- The color as `#rrggbb`, lower case. -/
def hex (c : Color) : String :=
  String.ofList ('#' :: hexByte c.red ++ hexByte c.green ++ hexByte c.blue)

end Color

-- ==================================================== reading

/-- A reader of colors: the color that a text names, or the reader's
own words for why it names none. -/
abbrev ColorReader := String → Except String Color

/-- A text that names no color, and what its reader said. -/
structure ColorFault where
  text : String
  reason : String
  deriving DecidableEq, Repr

/-- The fault in words. -/
def ColorFault.message (f : ColorFault) : String :=
  "invalid color `" ++ f.text ++ "`: " ++ f.reason

/-- The color that a text names to a reader. -/
def Color.read (readColor : ColorReader) (text : String) : Except ColorFault Color :=
  (readColor text).mapError fun reason => ⟨text, reason⟩

end SchemaAtlas
