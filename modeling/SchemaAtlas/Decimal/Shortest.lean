/-
Shortest decimals. A binary floating-point value stands for every real
number that rounds to it; the decimal written for it is the one on the
coarsest power-of-ten grid that meets that interval, and on that grid
the point nearer to the value. Which of two equally near points it is,
is a choice of the format. All arithmetic is exact, on `Nat`.

- `Magnitude`: a positive value `significand * 2^scale` and the
  interval of reals that round to it.
- `Magnitude.shortest`: its shortest decimal `digits * 10^exponent`.
- `Magnitude.ofBinary32`: the magnitude of a binary32 bit pattern.
-/
namespace SchemaAtlas

namespace Decimal

/-- A positive binary value with the spacing of its neighbours. The
value is `significand * 2^scale`; the next value up lies `2^scale`
away, the next one down as far, or half as far when `halfBelow`. -/
structure Magnitude where
  significand : Nat
  scale : Int
  halfBelow : Bool
  deriving DecidableEq, Repr

/-- A decimal `digits * 10^exponent`. -/
structure Scaled where
  digits : Nat
  exponent : Int
  deriving DecidableEq, Repr

/-- Which of two equally near decimals is written. -/
inductive Tie
  /-- The greater one. -/
  | up
  /-- The one with an even last digit. -/
  | even
  deriving DecidableEq, Repr

/-- Whether the decimal above the value is written, when the one below
ends in the last digit of `below` and lies equally near. -/
def Tie.takesAbove (tie : Tie) (below : Nat) : Bool :=
  match tie with
  | up => true
  | even => below % 2 = 1

namespace Magnitude

-- ==================================================== exact comparison

/-- Two naturals whose quotient is `2^(scale - 2) / 10^exponent`: one
quarter of the spacing, measured in steps of the decimal grid. -/
def quarterStep (m : Magnitude) (exponent : Int) : Nat × Nat :=
  (Nat.pow 2 (m.scale - 2).toNat * Nat.pow 10 (-exponent).toNat,
   Nat.pow 2 (2 - m.scale).toNat * Nat.pow 10 exponent.toNat)

/-- Whether `d * 10^exponent` rounds to the value. The ends of the
interval belong to it exactly when the significand is even. -/
def covers (m : Magnitude) (exponent : Int) (d : Nat) : Bool :=
  let step := m.quarterStep exponent
  let low := (4 * m.significand - if m.halfBelow then 1 else 2) * step.1
  let high := (4 * m.significand + 2) * step.1
  let point := d * step.2
  if m.significand % 2 = 0 then low ≤ point && point ≤ high
  else low < point && point < high

/-- The point of the grid `10^exponent` that is written for the value,
if one of the value's two neighbours on the grid rounds to it. The
nearer neighbour wins; at equal distance the one `tie` asks for. -/
def onGrid (tie : Tie) (m : Magnitude) (exponent : Int) : Option Scaled :=
  let step := m.quarterStep exponent
  let value := 4 * m.significand * step.1
  let below := value / step.2
  let remainder := value % step.2
  let nearer :=
    if 2 * remainder < step.2 then below
    else if step.2 < 2 * remainder then below + 1
    else if tie.takesAbove below then below + 1 else below
  let farther := if nearer = below then below + 1 else below
  if m.covers exponent nearer then some ⟨nearer, exponent⟩
  else if m.covers exponent farther then some ⟨farther, exponent⟩
  else none

/-- Decimal exponents from coarse to fine. They reach from above the
greatest finite binary32 value to below a quarter of the least. -/
def exponents : List Int :=
  (List.range 128).map fun n => 40 - Int.ofNat n

/-- The shortest decimal that rounds to the value. -/
def shortest (tie : Tie) (m : Magnitude) : Scaled :=
  (exponents.findSome? (m.onGrid tie)).getD ⟨0, 0⟩

end Magnitude

-- ==================================================== binary32

/-- What a binary32 bit pattern stands for. -/
inductive Reading
  | notANumber
  | infinite (negative : Bool)
  | zero (negative : Bool)
  | finite (negative : Bool) (magnitude : Magnitude)
  deriving DecidableEq, Repr

/-- Reads the three fields of a binary32 pattern: sign, exponent with
bias 127, and 23 stored significand bits. -/
def Reading.ofBinary32 (bits : UInt32) : Reading :=
  let n := bits.toNat
  let negative := n / Nat.pow 2 31 == 1
  let exponent : Nat := n / Nat.pow 2 23 % 256
  let fraction : Nat := n % Nat.pow 2 23
  if exponent = 255 then
    if fraction = 0 then .infinite negative else .notANumber
  else if exponent = 0 then
    if fraction = 0 then .zero negative else .finite negative ⟨fraction, -149, false⟩
  else
    .finite negative
      ⟨Nat.pow 2 23 + fraction, Int.ofNat exponent - 150, fraction == 0 && exponent != 1⟩

end Decimal

end SchemaAtlas
