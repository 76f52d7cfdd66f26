/-
Values of TOML documents. Numbers are kept as exact as they were
written; whether a machine number can hold them is asked when a value
is used. Tables remember how they came to be, which decides how they
may still grow.
-/
import SchemaAtlas.Decimal.Literal

namespace SchemaAtlas

namespace Toml

/-- How a table came to be. -/
inductive TableForm
  /-- By a header of its own; the document itself counts. -/
  | headed
  /-- On the way to the table of a header. -/
  | passed
  /-- On the way of a dotted key. -/
  | dotted
  /-- Between braces. -/
  | inline
  deriving DecidableEq, Repr

/-- How an array came to be. -/
inductive ArrayForm
  /-- Between brackets. -/
  | inline
  /-- By headers in double brackets, one for each item. -/
  | headed
  deriving DecidableEq, Repr

/-- A TOML value. -/
inductive Value
  | string (s : String)
  | integer (n : Int)
  | real (l : Decimal.Literal)
  | infinity (negative : Bool)
  | notANumber
  | boolean (b : Bool)
  | dateTime
  | array (form : ArrayForm) (items : List Value)
  | table (form : TableForm) (entries : List (String × Value))
  deriving Inhabited

namespace Value

/-- Whether a real number is one that binary64 holds, rounded but not
as an infinity. -/
def isFiniteReal (l : Decimal.Literal) : Bool :=
  l.toBinary64.isFinite

/-- Whether an integer lies within 128 bits, signed or unsigned. -/
def isWideInteger (n : Int) : Bool :=
  -(Nat.pow 2 127 : Int) ≤ n && n < (Nat.pow 2 128 : Int)

mutual

/-- Whether all numbers of a value fit the widest machine numbers. -/
def fits : Value → Bool
  | integer n => isWideInteger n
  | real l => isFiniteReal l
  | array _ items => allFit items
  | table _ entries => entriesFit entries
  | string _ | infinity _ | notANumber | boolean _ | dateTime => true

/-- Whether all numbers of a list of values fit. -/
def allFit : List Value → Bool
  | [] => true
  | v :: vs => fits v && allFit vs

/-- Whether all numbers of a table's entries fit. -/
def entriesFit : List (String × Value) → Bool
  | [] => true
  | (_, v) :: es => fits v && entriesFit es

end

end Value

/-- The first value under a key. -/
def lookup? (key : String) (entries : List (String × Value)) : Option Value :=
  (entries.find? fun e => e.1 = key).map Prod.snd

end Toml

end SchemaAtlas
