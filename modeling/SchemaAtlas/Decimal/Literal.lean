/-
Decimal literals and the floating-point values they name. A literal is
kept exact, as a sign, an integer and a power of ten; rounding happens
once, when a binary value is asked for.

- `Literal.read?`: digits with an optional point and exponent.
- `Literal.toBinary32`, `Literal.toBinary64`: the nearest value, ties
  to even, infinite when the literal exceeds the format.
- `Literal.binary32?`: the whole of a text as a binary32 value.
-/
import SchemaAtlas.Text.Letter

namespace SchemaAtlas

namespace Decimal

/-- The number `± digits * 10^exponent`. -/
structure Literal where
  negative : Bool
  digits : Nat
  exponent : Int
  deriving DecidableEq, Repr

/-- The value of a run of decimal digits, most significant first. -/
def digitsValue (cs : Text) : Nat :=
  cs.foldl (fun n c => 10 * n + (c.toNat - '0'.toNat)) 0

namespace Literal

-- ==================================================== values

/-- Digits in front of the decimal point, zero or less for small
fractions. -/
def wholeDigits (l : Literal) : Int :=
  ((Nat.repr l.digits).length : Int) + l.exponent

/-- The nearest binary32 value. -/
def toBinary32 (l : Literal) : Float32 :=
  let magnitude : Float32 :=
    if l.digits = 0 then 0
    else if 50 < l.wholeDigits then 1 / 0
    else if l.wholeDigits < -60 then 0
    else Float32.ofScientific l.digits (l.exponent < 0) l.exponent.natAbs
  if l.negative then -magnitude else magnitude

/-- The nearest binary64 value. -/
def toBinary64 (l : Literal) : Float :=
  let magnitude : Float :=
    if l.digits = 0 then 0
    else if 320 < l.wholeDigits then 1 / 0
    else if l.wholeDigits < -340 then 0
    else Float.ofScientific l.digits (l.exponent < 0) l.exponent.natAbs
  if l.negative then -magnitude else magnitude

-- ==================================================== reading

/-- The optional exponent part at the head of a text, and the rest. A
letter `e` that no digit follows is left in place. -/
def exponentPart : Text → Int × Text
  | c :: cs =>
      if c = 'e' || c = 'E' then
        let (negative, body) := match cs with
          | '-' :: r => (true, r)
          | '+' :: r => (false, r)
          | r => (false, r)
        let digits := body.takeWhile Text.isDigit
        if digits.isEmpty then (0, c :: cs)
        else
          let n : Int := digitsValue digits
          (if negative then -n else n, body.dropWhile Text.isDigit)
      else (0, c :: cs)
  | [] => (0, [])

/-- The optional sign at the head of a text: whether it is negative,
and the rest. -/
def signPart : Text → Bool × Text
  | '-' :: cs => (true, cs)
  | '+' :: cs => (false, cs)
  | cs => (false, cs)

/-- A literal made of its parts. -/
def ofParts (negative : Bool) (whole fraction : Text) (exponent : Int) : Literal :=
  ⟨negative, digitsValue (whole ++ fraction), exponent - fraction.length⟩

/-- A whole text as a literal: sign, digits with at most one point and
at least one digit, exponent. -/
def ofText? (t : Text) : Option Literal :=
  let (negative, body) := signPart t
  let whole := body.takeWhile Text.isDigit
  let afterWhole := body.dropWhile Text.isDigit
  let (fraction, afterFraction) := match afterWhole with
    | '.' :: r => (r.takeWhile Text.isDigit, r.dropWhile Text.isDigit)
    | r => ([], r)
  if whole.isEmpty && fraction.isEmpty then none
  else
    match exponentPart afterFraction with
    | (exponent, []) => some (ofParts negative whole fraction exponent)
    | _ => none

/-- A whole text as a binary32 value: a literal, or one of the words
`inf`, `infinity` and `nan` in any case, with an optional sign. -/
def binary32? (t : Text) : Option Float32 :=
  let (negative, body) := signPart t
  let word := String.ofList (body.map Char.toLower)
  if word = "inf" || word = "infinity" then some (if negative then -(1 / 0) else 1 / 0)
  else if word = "nan" then some (0 / 0)
  else (ofText? t).map toBinary32

end Literal

end Decimal

end SchemaAtlas
