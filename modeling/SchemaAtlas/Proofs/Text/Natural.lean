/-
Natural numbers in texts. A number is written in decimal digits alone,
and its digits tell it. Written in front of something that starts with no
digit it also shows where it ends.

- `Text.isDigit_of_mem_repr`, `Text.ofDigitChars_repr`: digits.
- `Text.repr_append_inj`: a number and what is behind it.
-/
import SchemaAtlas.Text.Basic

namespace SchemaAtlas

namespace Text

/-- A number is written in digits. -/
theorem isDigit_of_mem_repr {n : Nat} {c : Char} (h : c ∈ (Nat.repr n).toList) :
    c.isDigit = true := by
  rw [Nat.toList_repr] at h
  exact Nat.isDigit_of_mem_toDigits (by decide) (by decide) h

/-- A number has a first digit. -/
theorem exists_repr_eq_cons (n : Nat) :
    ∃ c t, (Nat.repr n).toList = c :: t ∧ c.isDigit = true := by
  cases hn : (Nat.repr n).toList with
  | nil =>
      rw [Nat.toList_repr] at hn
      exact absurd hn Nat.toDigits_ne_nil
  | cons c t => exact ⟨c, t, rfl, isDigit_of_mem_repr (hn ▸ List.mem_cons_self)⟩

/-- A number is read off its digits. -/
theorem ofDigitChars_repr (n : Nat) : Nat.ofDigitChars 10 (Nat.repr n).toList 0 = n := by
  rw [Nat.toList_repr, Nat.ofDigitChars_toDigits (by decide) (by decide)]

/-- Texts that no number goes on into. -/
def EndsNumber (t : Text) : Prop :=
  ∀ c ∈ t.head?, c.isDigit = false

/-- A number stops where no digit follows. -/
theorem takeWhile_repr_append (n : Nat) {t : Text} (h : EndsNumber t) :
    ((Nat.repr n).toList ++ t).takeWhile Char.isDigit = (Nat.repr n).toList := by
  have hend : t.takeWhile Char.isDigit = [] := by
    cases t with
    | nil => rfl
    | cons c t => rw [List.takeWhile_cons, h c rfl]; rfl
  rw [List.takeWhile_append_of_pos fun _ => isDigit_of_mem_repr, hend, List.append_nil]

/-- A number tells itself and what is behind it. -/
theorem repr_append_inj {m n : Nat} {r s : Text} (hr : EndsNumber r) (hs : EndsNumber s)
    (h : (Nat.repr m).toList ++ r = (Nat.repr n).toList ++ s) : m = n ∧ r = s := by
  obtain rfl : m = n := by
    have hdigits := congrArg (List.takeWhile Char.isDigit) h
    rw [takeWhile_repr_append m hr, takeWhile_repr_append n hs] at hdigits
    rw [← ofDigitChars_repr m, hdigits, ofDigitChars_repr]
  exact ⟨rfl, List.append_cancel_left h⟩

end Text

end SchemaAtlas
