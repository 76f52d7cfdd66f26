/-
TOML values that are written without quotes: truth values, integers,
real numbers, dates and times. Underscores may stand between two
digits.

- `Scalar.value?`: the value a whole word stands for.
-/
import SchemaAtlas.Text.Hex
import SchemaAtlas.Toml.Value

namespace SchemaAtlas

namespace Toml

namespace Scalar

-- ==================================================== digits

/-- A run of digits with single underscores between them, without the
underscores. -/
def digits? (isDigit : Char → Bool) : Text → Option Text
  | [] => none
  | [c] => if isDigit c then some [c] else none
  | c :: '_' :: r => if isDigit c then (digits? isDigit r).map (c :: ·) else none
  | c :: r => if isDigit c then (digits? isDigit r).map (c :: ·) else none

/-- Decimal digits that do not begin with a needless zero. -/
def whole? (t : Text) : Option Text :=
  match digits? Text.isDigit t with
  | some ('0' :: _ :: _) => none
  | ds => ds

/-- Digits and underscores at the head of a text, and the rest. -/
def spanDigits (t : Text) : Text × Text :=
  t.span fun c => Text.isDigit c || c = '_'

-- ==================================================== numbers

/-- The number a run of digits stands for to a base; letters count from
ten. -/
def number? (base : Nat) (t : Text) : Option Nat :=
  let isDigit (c : Char) : Bool := (Text.hexValue? c).any (· < base)
  (digits? isDigit t).map fun ds =>
    ds.foldl (fun n c => base * n + (Text.hexValue? c).getD 0) 0

/-- An integer: decimal with an optional sign, or to base sixteen,
eight or two without one. -/
def integer? (t : Text) : Option Int :=
  match t with
  | '0' :: 'x' :: r => (number? 16 r).map Int.ofNat
  | '0' :: 'o' :: r => (number? 8 r).map Int.ofNat
  | '0' :: 'b' :: r => (number? 2 r).map Int.ofNat
  | _ =>
      let sign := Decimal.Literal.signPart t
      (whole? sign.2).map fun ds =>
        let n := Int.ofNat (Decimal.digitsValue ds)
        if sign.1 then -n else n

/-- The exponent at the head of a text that holds nothing else. -/
def exponent? : Text → Option Int
  | [] => some 0
  | c :: r =>
      if c = 'e' || c = 'E' then
        let sign := Decimal.Literal.signPart r
        (digits? Text.isDigit sign.2).map fun ds =>
          let n := Int.ofNat (Decimal.digitsValue ds)
          if sign.1 then -n else n
      else none

/-- A real number: whole digits, then a fraction, an exponent or
both. -/
def real? (t : Text) : Option Decimal.Literal := do
  let sign := Decimal.Literal.signPart t
  let head := spanDigits sign.2
  let whole ← whole? head.1
  match head.2 with
  | '.' :: r =>
      let tail := spanDigits r
      let fraction ← digits? Text.isDigit tail.1
      let exponent ← exponent? tail.2
      return .ofParts sign.1 whole fraction exponent
  | c :: r =>
      let exponent ← exponent? (c :: r)
      return .ofParts sign.1 whole [] exponent
  | [] => none

-- ==================================================== dates and times

/-- The number two digits stand for. -/
def twoDigits? (a b : Char) : Option Nat :=
  if Text.isDigit a && Text.isDigit b then some (Decimal.digitsValue [a, b]) else none

/-- The days of a month. -/
def daysOf (year month : Nat) : Nat :=
  if month = 2 then
    if year % 4 = 0 && (year % 100 ≠ 0 || year % 400 = 0) then 29 else 28
  else if [4, 6, 9, 11].contains month then 30
  else 31

/-- The text behind a date `YYYY-MM-DD`. -/
def behindDate? : Text → Option Text
  | y1 :: y2 :: y3 :: y4 :: '-' :: m1 :: m2 :: '-' :: d1 :: d2 :: r => do
      let century ← twoDigits? y1 y2
      let year ← twoDigits? y3 y4
      let month ← twoDigits? m1 m2
      let day ← twoDigits? d1 d2
      guard (1 ≤ month ∧ month ≤ 12 ∧ 1 ≤ day ∧ day ≤ daysOf (100 * century + year) month)
      return r
  | _ => none

/-- The text behind an optional fraction of a second. -/
def behindFraction? : Text → Option Text
  | '.' :: c :: r => if Text.isDigit c then some (r.dropWhile Text.isDigit) else none
  | ['.'] => none
  | r => some r

/-- The text behind a time `HH:MM`, `HH:MM:SS` or `HH:MM:SS.fraction`. -/
def behindTime? : Text → Option Text
  | h1 :: h2 :: ':' :: m1 :: m2 :: r => do
      let hour ← twoDigits? h1 h2
      let minute ← twoDigits? m1 m2
      guard (hour < 24 ∧ minute < 60)
      match r with
      | ':' :: s1 :: s2 :: r =>
          let second ← twoDigits? s1 s2
          guard (second ≤ 60)
          behindFraction? r
      | r => return r
  | _ => none

/-- Whether a text is empty or an offset from universal time. -/
def isOffset : Text → Bool
  | [] => true
  | [c] => c = 'Z' || c = 'z'
  | [c, h1, h2, ':', m1, m2] =>
      (c = '+' || c = '-') && (twoDigits? h1 h2).any (· < 24) && (twoDigits? m1 m2).any (· < 60)
  | _ => false

/-- Whether a text is a date, a time, or a date with a time and perhaps
an offset. -/
def isDateTime (t : Text) : Bool :=
  match behindDate? t with
  | some [] => true
  | some (c :: r) =>
      (c = 'T' || c = 't' || c = ' ') && (behindTime? r).any isOffset
  | none => behindTime? t = some []

-- ==================================================== words

/-- A word that names an infinity or what is no number. -/
def named? (t : Text) : Option Value :=
  let sign := Decimal.Literal.signPart t
  if sign.2 = "inf".toList then some (.infinity sign.1)
  else if sign.2 = "nan".toList then some .notANumber
  else none

/-- The value a whole word stands for. -/
def value? (t : Text) : Option Value :=
  if t = "true".toList then some (.boolean true)
  else if t = "false".toList then some (.boolean false)
  else if isDateTime t then some .dateTime
  else
    match named? t with
    | some v => some v
    | none =>
        match integer? t with
        | some n => some (.integer n)
        | none => (real? t).map .real

end Scalar

end Toml

end SchemaAtlas
