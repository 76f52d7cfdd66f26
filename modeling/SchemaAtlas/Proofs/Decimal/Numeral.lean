/-
Numbers as text. What is written for a finite number has digits, a point,
signs and an `e`, and no other characters, so it cannot be taken for the
word of a format that stands for what is not finite.

- `Decimal.IsNumeric`, `Decimal.Format.hasNumerals_binary32`: the
  characters of a finite number.
- `Json.write_real_eq_null_iff`: which numbers are `null` in a document.
-/
import SchemaAtlas.Json.Printer
import SchemaAtlas.Proofs.Decimal.Binary32

namespace SchemaAtlas

namespace Decimal

-- ==================================================== characters

/-- A character that numbers are written with. -/
def IsNumeric (c : Char) : Prop :=
  c.isDigit = true ∨ c ∈ ['.', '-', '+', 'e']

instance (c : Char) : Decidable (IsNumeric c) :=
  instDecidableOr

/-- A text that numbers are written with. -/
def HasNumerals (s : String) : Prop :=
  ∀ c ∈ s.toList, IsNumeric c

instance (s : String) : Decidable (HasNumerals s) :=
  List.decidableBAll IsNumeric s.toList

namespace HasNumerals

theorem append {s t : String} (hs : HasNumerals s) (ht : HasNumerals t) : HasNumerals (s ++ t) := by
  intro c hc
  rw [String.toList_append, List.mem_append] at hc
  exact hc.elim (hs c) (ht c)

theorem ofList {cs : List Char} (h : ∀ c ∈ cs, IsNumeric c) : HasNumerals (String.ofList cs) := by
  intro c hc
  rw [String.toList_ofList] at hc
  exact h c hc

theorem repr (n : Nat) : HasNumerals (Nat.repr n) := by
  intro c hc
  rw [Nat.toList_repr] at hc
  exact .inl (Nat.isDigit_of_mem_toDigits (by decide) (by decide) hc)

theorem singleton {c : Char} (h : IsNumeric c) : HasNumerals (String.singleton c) := by
  intro d hd
  rw [String.toList_singleton, List.mem_singleton] at hd
  exact hd ▸ h

theorem replicate_zero (n : Nat) : HasNumerals (String.ofList (List.replicate n '0')) := by
  refine ofList fun c hc => ?_
  rw [List.eq_of_mem_replicate hc]
  exact .inl rfl

end HasNumerals

-- ==================================================== numbers

namespace Format

variable {f : Format}

theorem hasNumerals_positional {wholeSuffix : String} (h : HasNumerals wholeSuffix) (v : Scaled) :
    HasNumerals (positional wholeSuffix v) := by
  have hdigits := HasNumerals.repr v.digits
  have hpoint : HasNumerals "." := by decide
  have hfraction : HasNumerals "0." := by decide
  unfold positional
  dsimp only
  split
  · exact (hdigits.append (.replicate_zero _)).append h
  · split
    · refine ((HasNumerals.ofList fun c hc => ?_).append hpoint).append (.ofList fun c hc => ?_)
      · exact hdigits c (List.mem_of_mem_take hc)
      · exact hdigits c (List.mem_of_mem_drop hc)
    · exact (hfraction.append (.replicate_zero _)).append hdigits

theorem hasNumerals_scientific (v : Scaled) (leading : Int) :
    HasNumerals (scientific v leading) := by
  have hpoint : HasNumerals "." := by decide
  have hsign : HasNumerals (if leading < 0 then "e-" else "e+") := by
    split <;> decide
  have hexponent := hsign.append (.repr leading.natAbs)
  have hdigits := HasNumerals.repr v.digits
  unfold HasNumerals at hdigits
  unfold scientific
  dsimp only
  split
  · exact hexponent
  · next c heq =>
    rw [heq] at hdigits
    exact (HasNumerals.singleton (hdigits c List.mem_cons_self)).append hexponent
  · next c cs _ heq =>
    rw [heq] at hdigits
    have hfirst := HasNumerals.singleton (hdigits c List.mem_cons_self)
    have hrest := HasNumerals.ofList fun d hd => hdigits d (List.mem_cons_of_mem c hd)
    exact ((hfirst.append hpoint).append hrest).append hexponent

/-- Finite numbers are written with digits, points, signs and an `e`. -/
theorem hasNumerals_scaled (h : HasNumerals f.wholeSuffix) (v : Scaled) :
    HasNumerals (f.scaled v) := by
  unfold scaled
  split
  · exact hasNumerals_positional h v
  · exact hasNumerals_scientific v _

theorem hasNumerals_binary32 (h : HasNumerals f.wholeSuffix) {x : Float32}
    (hx : x.isFinite = true) : HasNumerals (f.binary32 x) := by
  have hsigned : ∀ (negative : Bool) (s : String), HasNumerals s →
      HasNumerals (if negative then "-" ++ s else s) := by
    intro negative s hs
    have hminus : HasNumerals "-" := by decide
    cases negative with
    | true => exact hminus.append hs
    | false => exact hs
  have hzero : HasNumerals "0" := by decide
  rw [Binary32.isFinite_eq, bne_iff_ne] at hx
  have hexponent : ¬ x.toBits.toNat / Nat.pow 2 23 % 256 = 255 := hx
  unfold binary32 Reading.ofBinary32
  dsimp only
  rw [if_neg hexponent]
  split
  · next heq => split_ifs at heq
  · next heq => split_ifs at heq
  · exact hsigned _ _ (hzero.append h)
  · exact hsigned _ _ (hasNumerals_scaled h _)

end Format

end Decimal

namespace Json

/-- A number is written as `null` if it is not finite. -/
theorem write_real_eq_null_iff (style : Style) (depth : Nat) (x : Float32) :
    write style depth (.real x) = write style depth .null ↔ x.isFinite = false := by
  have htext : write style depth (.real x) = (numberFormat.binary32 x).toList := by rw [write]
  have hnull : write style depth .null = "null".toList := by rw [write]
  rw [htext, hnull]
  constructor
  · intro h
    by_contra hfinite
    have hsuffix : Decimal.HasNumerals numberFormat.wholeSuffix := by decide
    have hword := Decimal.Format.hasNumerals_binary32 hsuffix (Bool.eq_true_of_not_eq_false hfinite)
    rw [String.toList_inj.1 h] at hword
    exact absurd hword (by decide)
  · intro h
    rw [Binary32.isFinite_eq, bne_eq_false_iff_eq] at h
    have hexponent : x.toBits.toNat / Nat.pow 2 23 % 256 = 255 := h
    unfold Decimal.Format.binary32 Decimal.Reading.ofBinary32
    dsimp only
    rw [if_pos hexponent]
    split_ifs
    · dsimp only
      split_ifs <;> rfl
    · rfl

end Json

end SchemaAtlas
