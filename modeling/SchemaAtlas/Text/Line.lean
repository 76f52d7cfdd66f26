/-
Lines of a text, each with its line break. Only the line feed ends a
line; the last line may lack it. Joining the lines gives the text back.
-/
import SchemaAtlas.Text.Basic

namespace SchemaAtlas

namespace Text

/-- The lines of a text, line breaks included. The empty text has none. -/
def lines : Text → List Text
  | [] => []
  | c :: cs =>
      if c = '\n' then [c] :: lines cs
      else
        match lines cs with
        | [] => [[c]]
        | l :: ls => (c :: l) :: ls

@[simp] theorem lines_nil : lines [] = [] := rfl

/-- Joining the lines gives the text back. -/
@[simp] theorem lines_flatten (t : Text) : (lines t).flatten = t := by
  induction t with
  | nil => rfl
  | cons c cs ih =>
      unfold lines
      split
      · simp [ih]
      · split
        · next h => rw [h] at ih; simp at ih; simp [ih]
        · next h => rw [h] at ih; simp at ih; simp [ih]

end Text

end SchemaAtlas
