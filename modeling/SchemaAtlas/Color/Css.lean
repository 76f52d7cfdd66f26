/-
Colors as they are written in style sheets: hexadecimal digits, names,
and the functions `rgb`, `hsl`, `hwb` and `color(srgb ...)`, the first
two with commas or without. Comments and white space may stand between
arguments. Opacity is read and dropped.

Components are read as binary64 numbers, kept as binary32 numbers, and
rounded to bytes at the end; a half goes up.

- `Css.reader`: the reader of these colors.
-/
import SchemaAtlas.Color.Named
import SchemaAtlas.Decimal.Literal

namespace SchemaAtlas

namespace Css

-- ==================================================== faults

/-- Why a text is no color. -/
inductive Fault
  | unknownAngleDimension
  | unknownAngle
  | unknownColorComponent
  | unknownColorIdentifier
  | unknownColorSpace
  | unknownColorSyntax
  | expectedArguments
  | expectedClosingParenthesis
  | expectedColorSpaceIdentifier
  | expectedComma
  | expectedEndOfString
  | wrongNumberOfHexDigits
  deriving DecidableEq, Repr

namespace Fault

/-- The fault in words. -/
def reason : Fault → String
  | unknownAngleDimension => "unknown angle dimension"
  | unknownAngle => "unknown angle"
  | unknownColorComponent => "unknown color component"
  | unknownColorIdentifier => "unknown color identifier"
  | unknownColorSpace => "unknown color space"
  | unknownColorSyntax => "unknown color syntax"
  | expectedArguments => "expected arguments"
  | expectedClosingParenthesis => "expected closing parenthesis"
  | expectedColorSpaceIdentifier => "expected color space identifier"
  | expectedComma => "expected comma"
  | expectedEndOfString => "expected end of string"
  | wrongNumberOfHexDigits => "wrong number of hex digits"

end Fault

-- ==================================================== blanks

/-- The text behind the end of a comment whose opening was just read. -/
def behindComment? : Text → Option Text
  | [] => none
  | '*' :: '/' :: r => some r
  | _ :: r => behindComment? r

theorem length_behindComment? {t r : Text} (h : behindComment? t = some r) :
    r.length < t.length := by
  fun_induction behindComment? t with
  | case1 => simp at h
  | case2 r' => cases h; simp only [List.length_cons]; omega
  | case3 c r' _ ih => have := ih h; simp only [List.length_cons]; omega

/-- The text behind the closed comment at its head, if there is one. -/
def comment? : Text → Option Text
  | '/' :: '*' :: r => behindComment? r
  | _ => none

theorem length_comment? {t r : Text} (h : comment? t = some r) : r.length < t.length := by
  unfold comment? at h
  split at h
  · have := length_behindComment? h
    simp
    omega
  · simp at h

/-- The text behind all closed comments at its head. -/
def skipComments (t : Text) : Text :=
  match _h : comment? t with
  | some r => skipComments r
  | none => t
termination_by t.length
decreasing_by exact length_comment? _h

/-- White space of style sheets. -/
def isSpace (c : Char) : Bool :=
  c = ' ' || c = '\t' || c = '\r' || c = '\n'

/-- The text behind all white space and closed comments at its head. -/
def skipBlanks (t : Text) : Text :=
  match _h : comment? t with
  | some r => skipBlanks r
  | none =>
      match t with
      | c :: r => if isSpace c then skipBlanks r else c :: r
      | [] => []
termination_by t.length
decreasing_by
  · exact length_comment? _h
  · simp

-- ==================================================== values

/-- The text behind the character `c` and comments in front of it. A
comment that is never closed is no slash. -/
def skipChar? (c : Char) (t : Text) : Option Text :=
  match skipComments t with
  | '/' :: '*' :: _ => none
  | d :: r => if d = c then some r else none
  | [] => none

/-- Characters that begin an identifier, apart from a hyphen. -/
def beginsName (c : Char) : Bool :=
  Text.isAsciiLetter c || c = '_'

/-- Characters that continue an identifier. -/
def continuesName (c : Char) : Bool :=
  beginsName c || Text.isDigit c || c = '-'

/-- The identifier at the head of a text, and the rest. -/
def identifier? : Text → Option (Text × Text)
  | [] => none
  | c :: r =>
      if c = '-' then
        match r with
        | d :: r =>
            if beginsName d then
              some ('-' :: d :: r.takeWhile continuesName, r.dropWhile continuesName)
            else none
        | [] => none
      else if beginsName c then
        some (c :: r.takeWhile continuesName, r.dropWhile continuesName)
      else none

/-- The number at the head of a text, and the rest. A point counts only
with a digit behind it. -/
def number? (t : Text) : Option (Float × Text) :=
  let (negative, body) := Decimal.Literal.signPart t
  let whole := body.takeWhile Text.isDigit
  let (fraction, behind) := match body.dropWhile Text.isDigit with
    | '.' :: d :: r =>
        if Text.isDigit d then (d :: r.takeWhile Text.isDigit, r.dropWhile Text.isDigit)
        else ([], '.' :: d :: r)
    | r => ([], r)
  if whole.isEmpty && fraction.isEmpty then none
  else
    let (exponent, rest) := Decimal.Literal.exponentPart behind
    some ((Decimal.Literal.ofParts negative whole fraction exponent).toBinary64, rest)

/-- A value in an argument list. -/
inductive Value
  | symbol (name : String)
  | number (x : Float)
  | percentage (x : Float)
  | dimension (x : Float) (dimension : String)

private def lowered (t : Text) : String :=
  String.ofList (t.map Char.toLower)

/-- The value at the head of a text, behind comments, and the rest.
Names are given in lower case. -/
def value? (t : Text) : Option (Value × Text) :=
  let t := skipComments t
  match number? t with
  | some (x, '%' :: r) => some (.percentage x, r)
  | some (x, r) =>
      match identifier? r with
      | some (name, r) => some (.dimension x (lowered name), r)
      | none => some (.number x, r)
  | none => (identifier? t).map fun (name, r) => (.symbol (lowered name), r)

-- ==================================================== components

/-- A component, absent if written `none`. -/
abbrev Component := Option Float

/-- What reading an argument yields: a result and the rest. -/
abbrev Parsed (α : Type) := Except Fault (α × Text)

/-- A number or percentage, each scaled by its factor. -/
def component (scale percentScale : Float) (t : Text) : Parsed Component :=
  match value? (skipBlanks t) with
  | some (.number x, r) => .ok (some (x * scale), r)
  | some (.percentage x, r) => .ok (some (x * percentScale), r)
  | some (.symbol "none", r) => .ok (none, r)
  | _ => .error .unknownColorComponent

/-- Degrees in one unit of an angle's dimension. -/
def degrees? : String → Option Float
  | "deg" => some 1
  | "rad" => some 57.29577951308232
  | "grad" => some 0.9
  | "turn" => some 360
  | _ => none

/-- An angle in degrees. -/
def angle (t : Text) : Parsed Component :=
  match value? (skipBlanks t) with
  | some (.number x, r) => .ok (some x, r)
  | some (.symbol "none", r) => .ok (none, r)
  | some (.dimension x unit, r) =>
      match degrees? unit with
      | some scale => .ok (some (x * scale), r)
      | none => .error .unknownAngleDimension
  | _ => .error .unknownAngle

/-- The separator in front of a later component: a comma in a list with
commas, nothing otherwise. -/
def separator (commas : Bool) (t : Text) : Except Fault Text :=
  if commas then
    match skipChar? ',' (skipBlanks t) with
    | some r => .ok r
    | none => .error .expectedComma
  else .ok t

/-- The optional opacity and the closing parenthesis; opacity follows a
comma in a list with commas and a slash otherwise. -/
def closing (commas : Bool) (t : Text) : Except Fault Text := do
  let t := skipBlanks t
  let r ← match skipChar? (if commas then ',' else '/') t with
    | some r => (component 1 0.01 r).map Prod.snd
    | none => .ok t
  match skipChar? ')' (skipBlanks r) with
  | some r => .ok r
  | none => .error .expectedClosingParenthesis

/-- The text behind an opening parenthesis that must come first. -/
def opening : Text → Except Fault Text
  | '(' :: r => .ok r
  | _ => .error .expectedArguments

-- ==================================================== conversion

/-- A component as it is kept: zero if absent. -/
def kept (c : Component) : Float32 :=
  (c.getD 0).toFloat32

/-- The value limited to the range from 0 to 1. -/
def unit (x : Float) : Float :=
  if x < 0 then 0 else if 1 < x then 1 else x

/-- The byte nearest to a component of the range from 0 to 1, a half
going up; components outside are limited to the range. -/
def byte (x : Float32) : UInt8 :=
  let limited := if x < 0 then 0 else if 1 < x then 1 else x
  (limited * 255 + 0.5).toUInt8

/-- The color of three components. -/
def color (rgb : Float32 × Float32 × Float32) : Color :=
  ⟨byte rgb.1, byte rgb.2.1, byte rgb.2.2⟩

/-- The lesser of two numbers, or the one that is a number. -/
def lesser (x y : Float32) : Float32 :=
  if x.isNaN then y else if y.isNaN then x else if y < x then y else x

/-- One component of a color given by hue, saturation and lightness; `n`
places the component on the circle of hues. -/
def hueComponent (hue a light n : Float32) : Float32 :=
  let x := n + hue * (1 / 30)
  let k := x - 12 * (x * (1 / 12)).floor
  let slope := lesser (k - 3) (9 - k)
  let limited := if slope < -1 then -1 else if 1 < slope then 1 else slope
  light - a * limited

/-- Red, green and blue of a hue in degrees, and of saturation and
lightness in percent. -/
def hslToRgb (hue saturation lightness : Float32) : Float32 × Float32 × Float32 :=
  let light := lightness * 0.01
  let a := saturation * 0.01 * lesser light (1 - light)
  (hueComponent hue a light 0, hueComponent hue a light 8, hueComponent hue a light 4)

/-- Red, green and blue of a hue in degrees, and of whiteness and
blackness in percent. -/
def hwbToRgb (hue whiteness blackness : Float32) : Float32 × Float32 × Float32 :=
  let white := whiteness * 0.01
  let black := blackness * 0.01
  if 1 ≤ white + black then
    let gray := white / (white + black)
    (gray, gray, gray)
  else
    let mix (x : Float32) : Float32 := white + x * (1 - white - black)
    let (r, g, b) := hslToRgb hue 100 50
    (mix r, mix g, mix b)

-- ==================================================== functions

/-- The arguments of `rgb`. -/
def rgb (t : Text) : Except Fault (Color × Text) := do
  let component := component (1 / 255) 0.01
  let t ← opening t
  let (r, t) ← component t
  let afterRed := skipChar? ',' (skipBlanks t)
  let commas := afterRed.isSome
  let (g, t) ← component (afterRed.getD t)
  let t ← separator commas t
  let (b, t) ← component t
  let t ← closing commas t
  return (color (kept (r.map unit), kept (g.map unit), kept (b.map unit)), t)

/-- The arguments of `hsl`. The comma behind the hue must follow it at
once. -/
def hsl (t : Text) : Except Fault (Color × Text) := do
  let t ← opening t
  let (h, t) ← angle t
  let afterHue := skipChar? ',' t
  let commas := afterHue.isSome
  let (s, t) ← component 1 1 (afterHue.getD t)
  let t ← separator commas t
  let (l, t) ← component 1 1 t
  let t ← closing commas t
  let s := s.map fun x => if x < 0 then 0 else x
  return (color (hslToRgb (kept h) (kept s) (kept l)), t)

/-- The arguments of `hwb`. -/
def hwb (t : Text) : Except Fault (Color × Text) := do
  let t ← opening t
  let (h, t) ← angle t
  let (w, t) ← component 1 1 t
  let (b, t) ← component 1 1 t
  let t ← closing false t
  return (color (hwbToRgb (kept h) (kept w) (kept b)), t)

/-- The arguments of `color`. -/
def colorFunction (t : Text) : Except Fault (Color × Text) := do
  let t ← opening t
  match identifier? (skipBlanks t) with
  | none => throw .expectedColorSpaceIdentifier
  | some (space, t) =>
      if lowered space ≠ "srgb" then throw .unknownColorSpace
      else
        let (r, t) ← component 1 0.01 t
        let (g, t) ← component 1 0.01 t
        let (b, t) ← component 1 0.01 t
        let t ← closing false t
        return (color (kept r, kept g, kept b), t)

-- ==================================================== hexadecimal

/-- Up to `n` hexadecimal digits at the head of a text, and the rest. -/
def hexDigits : Nat → Text → List Nat × Text
  | 0, t => ([], t)
  | _, [] => ([], [])
  | n + 1, c :: r =>
      match Text.hexValue? c with
      | some d => (d :: (hexDigits n r).1, (hexDigits n r).2)
      | none => ([], c :: r)

/-- A color of three or six digits, or of four or eight with opacity. -/
def hexColor (t : Text) : Parsed Color :=
  let pair (a b : Nat) : UInt8 := UInt8.ofNat (16 * a + b)
  match hexDigits 8 t with
  | ([r, g, b], rest) | ([r, g, b, _], rest) => .ok (⟨pair r r, pair g g, pair b b⟩, rest)
  | ([r, r', g, g', b, b'], rest) | ([r, r', g, g', b, b', _, _], rest) =>
      .ok (⟨pair r r', pair g g', pair b b'⟩, rest)
  | _ => .error .wrongNumberOfHexDigits

-- ==================================================== colors

/-- The color at the head of a text, and the rest. -/
def colorHead (t : Text) : Parsed Color :=
  match t with
  | '#' :: r => hexColor r
  | _ =>
      match identifier? t with
      | none => .error .unknownColorSyntax
      | some (name, r) =>
          match lowered name with
          | "rgb" | "rgba" => rgb r
          | "hsl" | "hsla" => hsl r
          | "hwb" => hwb r
          | "color" => colorFunction r
          | name =>
              match Color.named? name with
              | some c => .ok (c, r)
              | none => .error .unknownColorIdentifier

/-- The color that a text names, white space around it aside. -/
def parse (input : String) : Except Fault Color := do
  let (c, rest) ← colorHead (Text.trim input.toList)
  if rest.isEmpty then return c else throw .expectedEndOfString

/-- The reader of colors as they are written in style sheets. -/
def reader : ColorReader := fun text =>
  (parse text).mapError Fault.reason

end Css

end SchemaAtlas
