/-
How numbers are written. One record, `Format`, fixes the decisions of
an output: which of two equally near decimals is taken, which decimal
exponents are written positionally, whether a whole number keeps a
fraction, and the words for what is not finite.
-/
import SchemaAtlas.Decimal.Shortest

namespace SchemaAtlas

namespace Decimal

/-- The decisions of one number format. -/
structure Format where
  /-- Which of two equally near decimals is written. -/
  tie : Tie
  /-- Least exponent of the leading digit that is written positionally. -/
  leastPositional : Option Int
  /-- Greatest exponent of the leading digit that is written positionally. -/
  greatestPositional : Option Int
  /-- What follows a whole number written positionally. -/
  wholeSuffix : String
  /-- The word for a value that is no number. -/
  notANumber : String
  /-- The words for positive and negative infinity. -/
  infinity : String
  negativeInfinity : String
  deriving Repr

namespace Format

/-- Digits with the point placed, `digits * 10^exponent`, no exponent
written. -/
def positional (wholeSuffix : String) (v : Scaled) : String :=
  let digits := Nat.repr v.digits
  if 0 ≤ v.exponent then
    digits ++ String.ofList (List.replicate v.exponent.toNat '0') ++ wholeSuffix
  else
    let places := (-v.exponent).toNat
    let cs := digits.toList
    if places < cs.length then
      String.ofList (cs.take (cs.length - places)) ++ "."
        ++ String.ofList (cs.drop (cs.length - places))
    else
      "0." ++ String.ofList (List.replicate (places - cs.length) '0') ++ digits

/-- Leading digit, point, further digits, and a signed exponent. -/
def scientific (v : Scaled) (leading : Int) : String :=
  let exponent :=
    (if leading < 0 then "e-" else "e+") ++ Nat.repr leading.natAbs
  match (Nat.repr v.digits).toList with
  | [] => exponent
  | [c] => String.singleton c ++ exponent
  | c :: cs => String.singleton c ++ "." ++ String.ofList cs ++ exponent

/-- The exponent of the leading digit of a decimal. -/
def leadingExponent (v : Scaled) : Int :=
  v.exponent + ((Nat.repr v.digits).length : Int) - 1

/-- Whether a leading digit of exponent `e` is written positionally. -/
def isPositional (f : Format) (e : Int) : Bool :=
  (f.leastPositional.all fun low => low ≤ e) &&
    (f.greatestPositional.all fun high => e ≤ high)

/-- A decimal in the given format. -/
def scaled (f : Format) (v : Scaled) : String :=
  if f.isPositional (leadingExponent v) then positional f.wholeSuffix v
  else scientific v (leadingExponent v)

private def signed (negative : Bool) (text : String) : String :=
  if negative then "-" ++ text else text

/-- A binary32 value in the given format, with the fewest digits that
read back as the same value. -/
def binary32 (f : Format) (x : Float32) : String :=
  match Reading.ofBinary32 x.toBits with
  | .notANumber => f.notANumber
  | .infinite negative => if negative then f.negativeInfinity else f.infinity
  | .zero negative => signed negative ("0" ++ f.wholeSuffix)
  | .finite negative magnitude => signed negative (f.scaled (magnitude.shortest f.tie))

end Format

/-- Numbers in running text: always positional, whole numbers bare, of
two equally near decimals the greater. -/
def plain : Format where
  tie := .up
  leastPositional := none
  greatestPositional := none
  wholeSuffix := ""
  notANumber := "NaN"
  infinity := "inf"
  negativeInfinity := "-inf"

end Decimal

end SchemaAtlas
