/-
Texts under analysis and positions in them. A text is a list of
characters; a position counts the UTF-8 bytes in front of it, so that
spans agree with what an editor or a file on disk counts.

- `Text.width`: the bytes of a text, additive over `++`.
- `Text.cut`: a text split at a byte position; at the width of a
  prefix it gives back exactly that prefix and the rest.
- `Text.slice`: the text between two byte positions.
-/
namespace SchemaAtlas

/-- Source text, character by character. -/
abbrev Text := List Char

namespace Text

-- ==================================================== bytes

/-- Bytes a text takes in UTF-8. -/
def width : Text → Nat
  | [] => 0
  | c :: cs => c.utf8Size + width cs

@[simp] theorem width_nil : width [] = 0 := rfl

@[simp] theorem width_cons (c : Char) (cs : Text) :
    width (c :: cs) = c.utf8Size + width cs := rfl

@[simp] theorem width_append (s t : Text) :
    width (s ++ t) = width s + width t := by
  induction s with
  | nil => simp
  | cons c cs ih => simp [ih, Nat.add_assoc]

/-- A text without bytes is empty: every character takes at least one. -/
theorem width_eq_zero {t : Text} : width t = 0 ↔ t = [] := by
  cases t with
  | nil => simp
  | cons c cs =>
      have := c.utf8Size_pos
      simp
      omega

-- ==================================================== cutting

/-- Splits a text at byte position `n`. A character that straddles the
position stays in the second part. -/
def cut (n : Nat) : Text → Text × Text
  | [] => ([], [])
  | c :: cs =>
      if c.utf8Size ≤ n then
        ((c :: (cut (n - c.utf8Size) cs).1), (cut (n - c.utf8Size) cs).2)
      else ([], c :: cs)

@[simp] theorem cut_zero (t : Text) : cut 0 t = ([], t) := by
  cases t with
  | nil => rfl
  | cons c cs =>
      have := c.utf8Size_pos
      simp [cut]
      omega

/-- Cutting at the width of a prefix separates that prefix. -/
@[simp] theorem cut_width_append (s t : Text) :
    cut (width s) (s ++ t) = (s, t) := by
  induction s with
  | nil => simp
  | cons c cs ih => simp [cut, ih]

/-- Cutting loses no character. -/
theorem cut_append (n : Nat) (t : Text) : (cut n t).1 ++ (cut n t).2 = t := by
  induction t generalizing n with
  | nil => rfl
  | cons c cs ih =>
      unfold cut
      split
      · simp [ih]
      · rfl

/-- The text from byte position `start` up to `stop`. -/
def slice (t : Text) (start stop : Nat) : Text :=
  (cut (stop - start) (cut start t).2).1

/-- Between two prefix widths lies exactly what the longer one adds. -/
theorem slice_append (s t u : Text) :
    slice (s ++ t ++ u) (width s) (width s + width t) = t := by
  simp [slice, List.append_assoc]

end Text

end SchemaAtlas
