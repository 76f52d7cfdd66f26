/-
Spans: half-open byte ranges `start..stop` into a text. A span never
ends before it starts; the constructor `Span.of` clamps an inverted
range to an empty span at its start.
-/
namespace SchemaAtlas

/-- A half-open byte range into a text. -/
structure Span where
  start : Nat
  stop : Nat
  start_le_stop : start ≤ stop
  deriving DecidableEq, Repr

namespace Span

/-- The span `start..stop`, empty at `start` when `stop` lies before it. -/
def of (start stop : Nat) : Span :=
  ⟨start, max stop start, Nat.le_max_right ..⟩

instance : Inhabited Span := ⟨of 0 0⟩

/-- Bytes covered. -/
def size (s : Span) : Nat :=
  s.stop - s.start

/-- A span that covers nothing. -/
def isEmpty (s : Span) : Bool :=
  s.start == s.stop

/-- The smallest span covering both. -/
def union (s t : Span) : Span :=
  of (min s.start t.start) (max s.stop t.stop)

/-- The span moved right by `n` bytes. -/
def shift (s : Span) (n : Nat) : Span :=
  ⟨s.start + n, s.stop + n, Nat.add_le_add_right s.start_le_stop n⟩

-- ==================================================== laws

@[ext] theorem ext {s t : Span} (hs : s.start = t.start) (ht : s.stop = t.stop) :
    s = t := by
  cases s
  cases t
  simp_all

@[simp] theorem start_of (a b : Nat) : (of a b).start = a := rfl

@[simp] theorem stop_of (a b : Nat) : (of a b).stop = max b a := rfl

@[simp] theorem start_shift (s : Span) (n : Nat) : (s.shift n).start = s.start + n := rfl

@[simp] theorem stop_shift (s : Span) (n : Nat) : (s.shift n).stop = s.stop + n := rfl

@[simp] theorem shift_zero (s : Span) : s.shift 0 = s := rfl

/-- Moving both operands moves their union. -/
theorem union_shift (s t : Span) (n : Nat) :
    (s.shift n).union (t.shift n) = (s.union t).shift n := by
  ext <;> simp only [union, start_of, stop_of, start_shift, stop_shift] <;> omega

end Span

end SchemaAtlas
