/-
Writing JSON documents, on one line or spread over indented lines.

- `Json.compact`: no white space at all.
- `Json.pretty`: one item a line, two spaces a level, `": "` after a
  key; empty arrays and objects stay on one line.
- `Json.indented`: the same as a printer, one that prints every
  document.
-/
import SchemaAtlas.Decimal.Format
import SchemaAtlas.Json.Quoted
import SchemaAtlas.Json.Value

namespace SchemaAtlas

namespace Json

/-- Numbers in documents: of two equally near decimals the even one,
leading exponents from -6 to 12 positionally, `.0` after whole numbers,
and `null` for what is not finite. -/
def numberFormat : Decimal.Format where
  tie := .even
  leastPositional := some (-6)
  greatestPositional := some 12
  wholeSuffix := ".0"
  notANumber := "null"
  infinity := "null"
  negativeInfinity := "null"

-- ==================================================== white space

/-- How the items of a document are set apart. -/
inductive Style
  | compact
  | pretty
  deriving DecidableEq, Repr

/-- The break in front of an item, or of a closing bracket, at the
given depth. -/
def Style.lineBreak (style : Style) (depth : Nat) : Text :=
  match style with
  | compact => []
  | pretty => '\n' :: List.replicate (2 * depth) ' '

/-- What stands between a key and its value. -/
def Style.colon : Style → Text
  | compact => [':']
  | pretty => [':', ' ']

-- ==================================================== documents

mutual

/-- The text of a document whose opening stands at the given depth. -/
def write (style : Style) (depth : Nat) : Value → Text
  | .null => "null".toList
  | .boolean b => if b then "true".toList else "false".toList
  | .natural n => (Nat.repr n).toList
  | .real x => (numberFormat.binary32 x).toList
  | .string s => quote s.toList
  | .array [] => ['[', ']']
  | .array (v :: vs) =>
      '[' :: (style.lineBreak (depth + 1) ++ write style (depth + 1) v)
        ++ writeItems style depth vs ++ style.lineBreak depth ++ [']']
  | .object [] => ['{', '}']
  | .object (m :: ms) =>
      '{' :: (style.lineBreak (depth + 1) ++ writeMember style depth m)
        ++ writeMembers style depth ms ++ style.lineBreak depth ++ ['}']

/-- The items after the first, each after a comma. -/
def writeItems (style : Style) (depth : Nat) : List Value → Text
  | [] => []
  | v :: vs =>
      ',' :: (style.lineBreak (depth + 1) ++ write style (depth + 1) v)
        ++ writeItems style depth vs

/-- One member of an object: key and value. -/
def writeMember (style : Style) (depth : Nat) : String × Value → Text
  | (k, v) => quote k.toList ++ style.colon ++ write style (depth + 1) v

/-- The members after the first, each after a comma. -/
def writeMembers (style : Style) (depth : Nat) : List (String × Value) → Text
  | [] => []
  | m :: ms =>
      ',' :: (style.lineBreak (depth + 1) ++ writeMember style depth m)
        ++ writeMembers style depth ms

end

/-- A document on one line. -/
def compact (v : Value) : String :=
  String.ofList (write .compact 0 v)

/-- A document over indented lines. -/
def pretty (v : Value) : String :=
  String.ofList (write .pretty 0 v)

-- ==================================================== printers

/-- A printer of documents: the text of a document, or the printer's own
words for why there is none. -/
abbrev Printer := Value → Except String String

/-- The printer of indented documents. -/
def indented : Printer := fun v =>
  .ok (pretty v)

end Json

end SchemaAtlas
