/-
Binary32 numbers as they are stored. Arithmetic takes its operands apart
into sign, digits and exponent, computes new parts, and puts these
together again. Digits and exponent have only one form in which they are
stored; parts of that form are read back as they were, and a finite
number whose exponent is too large is read back as an infinity.

- `Binary32.parts`, `Binary32.ofParts`, `Binary32.value`: numbers, their
  parts and the rational numbers that they stand for.
- `Binary32.IsStored`, `Binary32.isStored_parts`: the one form.
- `Binary32.parts_ofParts`, `Binary32.isFinite_ofParts_of_overflow`:
  what is read back.
-/
import Mathlib

namespace SchemaAtlas

namespace Binary32

open Float.Model (Format UnpackedFloat)
open Float.Model.UnpackedFloat

-- ==================================================== parts

/-- A number taken apart. -/
def parts (x : Float32) : UnpackedFloat :=
  x.toModel.unpack

/-- The number put together from parts. -/
def ofParts (f : UnpackedFloat) : Float32 :=
  ⟨.pack f⟩

/-- One with a sign. -/
def unit : Sign → ℚ
  | .negative => -1
  | .positive => 1

/-- The number that parts stand for; zero for what is not finite. -/
def number : UnpackedFloat → ℚ
  | .finite s m e _ => unit s * (m * 2 ^ e)
  | _ => 0

/-- The number that is stored; zero for what is not finite. -/
def value (x : Float32) : ℚ :=
  number (parts x)

/-- The form in which parts are stored: no more than 24 digits, and as
many unless the exponent is the least. -/
def IsStored : UnpackedFloat → Prop
  | .finite _ m e _ => m < 2 ^ 24 ∧ (2 ^ 23 ≤ m ∨ e = -149) ∧ -149 ≤ e ∧ e ≤ 104
  | _ => True

theorem abs_unit (s : Sign) : |unit s| = 1 := by
  cases s <;> simp [unit]

theorem unit_mul (s t : Sign) : unit (s * t) = unit s * unit t := by
  cases s <;> cases t <;> norm_num [unit]

theorem unit_neg (s : Sign) : unit (-s) = -unit s := by
  cases s <;> simp [unit]

theorem unit_div_positive (s : Sign) : unit (s / .positive) = unit s := by
  cases s <;> rfl

theorem cast_apply (s : Sign) (m : ℕ) : ((s.apply m : ℤ) : ℚ) = unit s * m := by
  cases s <;> simp [Sign.apply, unit]

theorem abs_number_finite (s : Sign) {m : ℕ} (e : ℤ) (hm : 0 < m) :
    |number (.finite s m e hm)| = m * 2 ^ e := by
  rw [number, abs_mul, abs_unit, one_mul, abs_of_nonneg (by positivity)]

theorem finite_congr {s t : Sign} {m n : ℕ} {d e : ℤ} {hm : 0 < m} {hn : 0 < n} (hs : s = t)
    (h : m = n) (he : d = e) : UnpackedFloat.finite s m d hm = .finite t n e hn := by
  subst hs h he
  rfl

-- ==================================================== bits

theorem eq_zero_iff {w : ℕ} (e : BitVec w) : e = 0#w ↔ e.toNat = 0 := by
  rw [← BitVec.toNat_inj]
  simp

theorem eq_neg_one_iff (e : BitVec 8) : e = -1#8 ↔ e.toNat = 255 := by
  rw [← BitVec.toNat_inj]
  rfl

/-- The first of 24 digits is not stored. -/
theorem toNat_one_append (m : BitVec 23) : (1#1 ++ m).toNat = 2 ^ 23 + m.toNat := by
  rw [BitVec.toNat_append, ← Nat.shiftLeft_add_eq_or_of_lt m.isLt]
  rfl

theorem toNat_unpackExponent (b : BitVec 32) :
    (@unpackExponent Format.binary32 b).toNat = b.toNat / 2 ^ 23 % 256 := by
  unfold unpackExponent
  rw [BitVec.toNat_cast, BitVec.extractLsb_toNat, Nat.shiftRight_eq_div_pow]
  rfl

/-- Bits are read as parts of the stored form; those with the greatest
exponent, and no others, are not finite. -/
theorem unpack_spec (b : BitVec 32) :
    (unpack Format.binary32 b).isFinite = (b.toNat / 2 ^ 23 % 256 != 255)
      ∧ IsStored (unpack Format.binary32 b) := by
  have hmantissa : (@unpackMantissa Format.binary32 b).toNat < 2 ^ 23 := BitVec.isLt _
  have hexponent : (@unpackExponent Format.binary32 b).toNat < 2 ^ 8 := BitVec.isLt _
  unfold unpack
  dsimp only
  rw [← toNat_unpackExponent]
  by_cases hmax : @unpackExponent Format.binary32 b = -1#8
  · rw [if_pos hmax, hmax]
    split <;> exact ⟨rfl, trivial⟩
  · have hfinite : (@unpackExponent Format.binary32 b).toNat ≠ 255 := mt (eq_neg_one_iff _).2 hmax
    rw [if_neg hmax, bne_iff_ne.2 hfinite]
    by_cases hmin : @unpackExponent Format.binary32 b = 0#8
    · have hleast : ((@unpackExponent Format.binary32 b).toNat : ℤ)
          - (Format.binary32.exponentBias + Format.binary32.mantissaBitsWithoutImplicit) + 1 =
            -149 := by
        rw [hmin]
        rfl
      rw [if_pos hmin]
      split
      · exact ⟨rfl, trivial⟩
      · exact ⟨rfl, hmantissa.trans (by decide), .inr hleast, hleast.ge,
          hleast.le.trans (by decide)⟩
    · have hpos : (@unpackExponent Format.binary32 b).toNat ≠ 0 := mt (eq_zero_iff _).2 hmin
      have hbias : ((@unpackExponent Format.binary32 b).toNat : ℤ)
          - (Format.binary32.exponentBias + Format.binary32.mantissaBitsWithoutImplicit) =
            (@unpackExponent Format.binary32 b).toNat - 150 := rfl
      rw [if_neg hmin]
      refine ⟨rfl, ?_⟩
      show _ < 2 ^ 24 ∧ (2 ^ 23 ≤ _ ∨ _) ∧ _ ≤ _ ∧ _ ≤ _
      rw [toNat_one_append, hbias]
      refine ⟨?_, .inl (Nat.le_add_right _ _), ?_, ?_⟩ <;> omega

theorem isStored_parts (x : Float32) : IsStored (parts x) :=
  (unpack_spec _).2

theorem isFinite_eq (x : Float32) : x.isFinite = (x.toBits.toNat / 2 ^ 23 % 256 != 255) :=
  (unpack_spec _).1

-- ==================================================== reading back

theorem unpack_packComponents_normal (s : Sign) {m : ℕ} {e : ℤ} (hm : 0 < m)
    (hfirst : 2 ^ 23 ≤ m) (hlt : m < 2 ^ 24) (hmin : -149 ≤ e) (hmax : e ≤ 104) :
    unpack Format.binary32 (packComponents Format.binary32 s (BitVec.ofNat 8 (e + 150).toNat)
      (BitVec.ofNat 23 m)) = .finite s m e hm := by
  have he : (BitVec.ofNat 8 (e + 150).toNat).toNat = (e + 150).toNat :=
    (BitVec.toNat_ofNat _ _).trans (Nat.mod_eq_of_lt (by omega))
  have hinfinite : BitVec.ofNat 8 (e + 150).toNat ≠ -1#8 := by
    rw [ne_eq, eq_neg_one_iff, he]
    omega
  have hsubnormal : BitVec.ofNat 8 (e + 150).toNat ≠ 0#8 := by
    rw [ne_eq, eq_zero_iff, he]
    omega
  unfold unpack
  simp only [unpackExponent_packComponents, unpackMantissa_packComponents,
    unpackSign_packComponents, Sign.ofBitVec_toBitVec, if_neg hinfinite, if_neg hsubnormal]
  apply finite_congr rfl
  · rw [toNat_one_append, BitVec.toNat_ofNat]
    omega
  · rw [he]
    show ((e + 150).toNat : ℤ) - 150 = e
    omega

theorem unpack_packComponents_subnormal (s : Sign) {m : ℕ} (hm : 0 < m) (hlt : m < 2 ^ 23) :
    unpack Format.binary32 (packComponents Format.binary32 s 0#8 (BitVec.ofNat 23 m)) =
      .finite s m (-149) hm := by
  have hdigits : (BitVec.ofNat 23 m).toNat = m :=
    (BitVec.toNat_ofNat _ _).trans (Nat.mod_eq_of_lt hlt)
  have hzero : BitVec.ofNat 23 m ≠ 0#23 := by
    rw [ne_eq, eq_zero_iff, hdigits]
    omega
  have hinfinite : 0#8 ≠ -1#8 := by decide
  unfold unpack
  simp only [unpackExponent_packComponents, unpackMantissa_packComponents,
    unpackSign_packComponents, Sign.ofBitVec_toBitVec, if_neg hinfinite, if_true, dif_neg hzero]
  exact finite_congr rfl hdigits rfl

theorem biased_exponent (e : ℤ) :
    e + Format.binary32.exponentBias + Format.binary32.mantissaBitsWithoutImplicit = e + 150 := by
  show e + 127 + 23 = e + 150
  omega

theorem unpack_pack_finite {s : Sign} {m : ℕ} {e : ℤ} {hm : 0 < m}
    (h : IsStored (.finite s m e hm)) :
    unpack Format.binary32 (pack Format.binary32 (.finite s m e hm)) = .finite s m e hm := by
  obtain ⟨hlt, hfirst, hmin, hmax⟩ := h
  have hfits : ¬ 2 ^ Format.binary32.exponentBits ≤ (e + 150).toNat + 1 := by
    show ¬ 256 ≤ (e + 150).toNat + 1
    omega
  have hlog : m.log2 + 1 = Format.binary32.mantissaBits ↔ 2 ^ 23 ≤ m := by
    have hhigh := (Nat.log2_lt hm.ne').2 hlt
    have hlow := Nat.le_log2 hm.ne' (k := 23)
    show m.log2 + 1 = 24 ↔ 2 ^ 23 ≤ m
    omega
  unfold pack
  dsimp only
  rw [biased_exponent, if_neg hfits]
  by_cases hnormal : 2 ^ 23 ≤ m
  · rw [if_pos (hlog.2 hnormal)]
    exact unpack_packComponents_normal s hm hnormal hlt hmin hmax
  · obtain rfl := hfirst.resolve_left hnormal
    rw [if_neg (mt hlog.1 hnormal)]
    exact unpack_packComponents_subnormal s hm (Nat.lt_of_not_le hnormal)

/-- Parts of the stored form are read back. -/
theorem parts_ofParts {f : UnpackedFloat} (h : IsStored f) : parts (ofParts f) = f := by
  show unpack Format.binary32 (pack Format.binary32 f) = f
  cases f with
  | infinity s => cases s <;> rfl
  | notANumber => rfl
  | zero s => cases s <;> rfl
  | finite s m e hm => exact unpack_pack_finite h

theorem isFinite_ofParts {f : UnpackedFloat} (h : IsStored f) :
    (ofParts f).isFinite = f.isFinite := by
  show (parts (ofParts f)).isFinite = f.isFinite
  rw [parts_ofParts h]

@[simp]
theorem isFinite_ofParts_zero (s : Sign) : (ofParts (.zero s)).isFinite = true :=
  isFinite_ofParts trivial

@[simp]
theorem isFinite_ofParts_infinity (s : Sign) : (ofParts (.infinity s)).isFinite = false :=
  isFinite_ofParts trivial

@[simp]
theorem isFinite_ofParts_notANumber : (ofParts .notANumber).isFinite = false :=
  isFinite_ofParts trivial

/-- An exponent that is too large makes an infinity. -/
theorem isFinite_ofParts_of_overflow (s : Sign) {m : ℕ} (hm : 0 < m) {e : ℤ} (he : 104 < e) :
    (ofParts (.finite s m e hm)).isFinite = false := by
  have hover : 2 ^ Format.binary32.exponentBits ≤ (e + 150).toNat + 1 := by
    show 256 ≤ (e + 150).toNat + 1
    omega
  have hpack : pack Format.binary32 (.finite s m e hm) = pack Format.binary32 (.infinity s) := by
    unfold pack
    dsimp only
    rw [biased_exponent, if_pos hover]
  have hsame : ofParts (.finite s m e hm) = ofParts (.infinity s) := by
    unfold ofParts Float32.Model.pack
    simp only [hpack]
  rw [hsame, isFinite_ofParts_infinity]

end Binary32

end SchemaAtlas
