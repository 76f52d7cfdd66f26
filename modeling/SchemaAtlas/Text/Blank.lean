/-
White space and trimming. A character is blank when Unicode gives it
the White_Space property; the property's twenty-five members are listed
as ranges of code points.
-/
import SchemaAtlas.Text.Basic

namespace SchemaAtlas

namespace Text

-- ==================================================== blank characters

/-- Code point ranges of the White_Space property, ends included. -/
def blankRanges : List (Nat × Nat) :=
  [(0x09, 0x0D), (0x20, 0x20), (0x85, 0x85), (0xA0, 0xA0), (0x1680, 0x1680),
   (0x2000, 0x200A), (0x2028, 0x2029), (0x202F, 0x202F), (0x205F, 0x205F),
   (0x3000, 0x3000)]

/-- A code point lies in one of the ranges. -/
def inRanges (ranges : List (Nat × Nat)) (n : Nat) : Bool :=
  ranges.any fun r => r.1 ≤ n && n ≤ r.2

/-- Unicode white space. -/
def isBlank (c : Char) : Bool :=
  inRanges blankRanges c.toNat

/-- A text of white space alone; the empty text counts. -/
def isAllBlank (t : Text) : Bool :=
  t.all isBlank

-- ==================================================== trimming

/-- The text without its leading white space. -/
def trimStart (t : Text) : Text :=
  t.dropWhile isBlank

/-- The text without its trailing white space. -/
def trimEnd (t : Text) : Text :=
  (t.reverse.dropWhile isBlank).reverse

/-- The text without white space at either end. -/
def trim (t : Text) : Text :=
  trimEnd (trimStart t)

end Text

end SchemaAtlas
