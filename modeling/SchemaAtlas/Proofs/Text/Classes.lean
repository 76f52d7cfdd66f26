/-
Character classes kept apart. Words and white space are given by tables
of code point ranges; two tables have no code point in common as soon
as every range of one lies wholly before or behind every range of the
other, which is a computation on the tables alone.

- `isBlank_of_continuesWord`: no character of a word is white space.
- `beginsWord_spec`: what begins a word begins no other token.
-/
import SchemaAtlas.Token.Lexer

namespace SchemaAtlas

namespace Text

-- ==================================================== tables

/-- Two tables without a common code point. -/
def rangesApart (rs ss : List (Nat × Nat)) : Bool :=
  rs.all fun r => ss.all fun s => r.2 < s.1 || s.2 < r.1

/-- A code point of one table is missing from a table apart from it. -/
theorem not_inRanges_of_apart {rs ss : List (Nat × Nat)} {n : Nat}
    (h : rangesApart rs ss = true) (hn : inRanges rs n = true) : inRanges ss n = false := by
  obtain ⟨r, hr, hrn⟩ := List.any_eq_true.1 hn
  rw [inRanges, List.any_eq_false]
  intro s hs
  have hrs := List.all_eq_true.1 (List.all_eq_true.1 h r hr) s hs
  simp only [Bool.or_eq_true, Bool.and_eq_true, decide_eq_true_eq] at hrs hrn ⊢
  omega

theorem inRanges_append (rs ss : List (Nat × Nat)) (n : Nat) :
    inRanges (rs ++ ss) n = (inRanges rs n || inRanges ss n) := by
  unfold inRanges
  rw [List.any_append]

/-- The ASCII letters as ranges. -/
def asciiLetterRanges : List (Nat × Nat) :=
  [(0x41, 0x5A), (0x61, 0x7A)]

/-- The ASCII digits as one range. -/
def digitRanges : List (Nat × Nat) :=
  [(0x30, 0x39)]

theorem isAsciiLetter_eq (c : Char) :
    isAsciiLetter c = inRanges asciiLetterRanges c.toNat := by
  simp [isAsciiLetter, inRanges, asciiLetterRanges, Char.le_def, UInt32.le_iff_toNat_le,
    Bool.or_comm]

theorem isDigit_eq (c : Char) : isDigit c = inRanges digitRanges c.toNat := by
  simp [isDigit, inRanges, digitRanges, Char.le_def, UInt32.le_iff_toNat_le]

-- ==================================================== words

/-- Every character of a word, as one table: letters, digits and other
numerals, the underscore and the dollar sign. -/
def wordRanges : List (Nat × Nat) :=
  asciiLetterRanges ++ letterRanges ++ digitRanges ++ numeralRanges
    ++ [(0x5F, 0x5F), (0x24, 0x24)]

theorem inRanges_of_continuesWord {c : Char} (h : continuesWord c = true) :
    inRanges wordRanges c.toNat = true := by
  simp only [continuesWord, isLetter, isNumeral, isAsciiLetter_eq, isDigit_eq, Bool.or_eq_true,
    Bool.and_eq_true, decide_eq_true_eq] at h
  simp only [wordRanges, inRanges_append, Bool.or_eq_true]
  rcases h with (((h | ⟨-, h⟩) | (h | ⟨-, h⟩)) | rfl) | rfl
  · exact Or.inl (Or.inl (Or.inl (Or.inl h)))
  · exact Or.inl (Or.inl (Or.inl (Or.inr h)))
  · exact Or.inl (Or.inl (Or.inr h))
  · exact Or.inl (Or.inr h)
  · exact Or.inr rfl
  · exact Or.inr rfl

theorem wordRanges_apart_blankRanges : rangesApart wordRanges blankRanges = true := by
  decide +kernel

/-- No character of a word is white space. -/
theorem isBlank_of_continuesWord {c : Char} (h : continuesWord c = true) : isBlank c = false :=
  not_inRanges_of_apart wordRanges_apart_blankRanges (inRanges_of_continuesWord h)

theorem continuesWord_of_beginsWord {c : Char} (h : beginsWord c = true) :
    continuesWord c = true := by
  simp only [beginsWord, continuesWord, Bool.or_eq_true] at h ⊢
  rcases h with (h | h) | h
  · exact Or.inl (Or.inl (Or.inl h))
  · exact Or.inl (Or.inr h)
  · exact Or.inr h

/-- A digit begins no word. -/
theorem beginsWord_of_isDigit {c : Char} (h : isDigit c = true) : beginsWord c = false := by
  rw [isDigit_eq] at h
  have hn : 0x30 ≤ c.toNat ∧ c.toNat ≤ 0x39 := by simpa [inRanges, digitRanges] using h
  have ne : ∀ d : Char, c.toNat ≠ d.toNat → c ≠ d := fun d hd e => hd (congrArg Char.toNat e)
  have hu : c ≠ '_' := ne '_' (by show c.toNat ≠ 95; omega)
  have hd : c ≠ '$' := ne '$' (by show c.toNat ≠ 36; omega)
  have ha : isAsciiLetter c = false := by
    rw [isAsciiLetter_eq]
    have apart : rangesApart digitRanges asciiLetterRanges = true := by decide
    exact not_inRanges_of_apart apart h
  have hs : ¬ 128 ≤ c.toNat := by omega
  simp [beginsWord, isLetter, ha, hs, hu, hd]

/-- What begins a word begins no other token. -/
theorem beginsWord_spec {c : Char} (h : beginsWord c = true) :
    c ≠ '/' ∧ isQuote c = false ∧ isDigit c = false := by
  refine ⟨?_, ?_, ?_⟩
  · rintro rfl
    exact absurd h (by decide)
  · cases hq : isQuote c with
    | false => rfl
    | true =>
        simp only [isQuote, Bool.or_eq_true, decide_eq_true_eq] at hq
        rcases hq with (rfl | rfl) | rfl <;> exact absurd h (by decide)
  · cases hd : isDigit c with
    | false => rfl
    | true =>
        rw [beginsWord_of_isDigit hd] at h
        cases h

end Text

end SchemaAtlas
