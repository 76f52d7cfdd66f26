/-
Reading quoted strings back. What is written for a character tells the
character and where it ends, whatever is written behind it, and it never
starts with a quotation mark. So a quoted string ends at the first
quotation mark that starts a character, and two strings are quoted
alike only if they are the same string.

- `Json.unescape?`: the first character of what is written, read back.
- `Json.unescape?_escape`: reading undoes writing.
- `Json.quote_append_inj`: a quoted string tells the string and what
  is behind it.
-/
import SchemaAtlas.Json.Quoted

namespace SchemaAtlas

namespace Json

-- ==================================================== reading

/-- The character a letter behind a backslash stands for. -/
def ofLetter (c : Char) : Char :=
  if c = 'b' then '\x08'
  else if c = 't' then '\t'
  else if c = 'n' then '\n'
  else if c = 'f' then '\x0c'
  else if c = 'r' then '\r'
  else c

/-- The character whose escape a text starts with, its backslash left
out, and the text behind it. -/
def unescapeTail? : Text → Option (Char × Text)
  | 'u' :: '0' :: '0' :: high :: low :: t => do
      let h ← Text.hexValue? high
      let l ← Text.hexValue? low
      return (Char.ofNat (16 * h + l), t)
  | c :: t => some (ofLetter c, t)
  | [] => none

/-- The first character written in a text, and the text behind it. There
is none at the quotation mark that closes a string. -/
def unescape? : Text → Option (Char × Text)
  | [] => none
  | c :: t =>
      if c = '"' then none
      else if c = '\\' then unescapeTail? t
      else some (c, t)

/-- A character escaped by its number is read back from the two digits. -/
theorem unescapeTail?_hexDigit {c : Char} (h : c.toNat < 0x20) (t : Text) :
    unescapeTail?
      ('u' :: '0' :: '0' :: Text.hexDigit (c.toNat / 16) :: Text.hexDigit (c.toNat % 16) :: t) =
        some (c, t) := by
  have hhigh := Text.hexValue?_hexDigit (c.toNat / 16) (by omega)
  have hlow := Text.hexValue?_hexDigit (c.toNat % 16) (by omega)
  rw [unescapeTail?, hhigh, hlow]
  show some (Char.ofNat (16 * (c.toNat / 16) + c.toNat % 16), t) = _
  rw [Nat.div_add_mod, Char.ofNat_toNat]

/-- Reading undoes writing. -/
theorem unescape?_escape (c : Char) (t : Text) : unescape? (escape c ++ t) = some (c, t) := by
  fun_cases escape c with
  | case8 _ _ _ _ _ _ _ hcontrol => exact unescapeTail?_hexDigit hcontrol t
  | case9 hquote hbackslash =>
      show unescape? (c :: t) = _
      rw [unescape?, if_neg hquote, if_neg hbackslash]
  | _ => subst_vars; rfl

-- ==================================================== strings

/-- Strings written up to the closing quotation mark tell the string and
what is behind the mark. -/
theorem flatMap_escape_inj {s t u v : Text}
    (h : s.flatMap escape ++ '"' :: u = t.flatMap escape ++ '"' :: v) : s = t ∧ u = v := by
  induction s generalizing t with
  | nil =>
      cases t with
      | nil => exact ⟨rfl, List.tail_eq_of_cons_eq h⟩
      | cons d t =>
          rw [List.flatMap_cons, List.append_assoc] at h
          exact absurd ((congrArg unescape? h).trans (unescape?_escape d _)) (by rintro ⟨⟩)
  | cons c s ih =>
      rw [List.flatMap_cons, List.append_assoc] at h
      have hfirst := (unescape?_escape c _).symm.trans (congrArg unescape? h)
      cases t with
      | nil => exact absurd hfirst (by rintro ⟨⟩)
      | cons d t =>
          rw [List.flatMap_cons, List.append_assoc, unescape?_escape] at hfirst
          obtain ⟨rfl, hrest⟩ := Prod.mk.inj (Option.some.inj hfirst)
          obtain ⟨rfl, rfl⟩ := ih hrest
          exact ⟨rfl, rfl⟩

/-- A quoted string tells the string and what is behind it. -/
theorem quote_append_inj {s t u v : Text} (h : quote s ++ u = quote t ++ v) :
    s = t ∧ u = v := by
  apply flatMap_escape_inj
  simpa only [quote, List.cons_append, List.append_assoc, List.nil_append, List.cons.injEq,
    true_and] using h

end Json

end SchemaAtlas
