/-
Binary32 arithmetic, as far as coordinates need it. A product is finite
exactly if both factors are and it stays below the limit of rounding.
Products, differences, halves and whole numbers that have 24 digits are
stored without rounding.

- `Binary32.isFinite_mul_iff`: when a product is finite.
- `Binary32.Represents.mul`, `Represents.sub`, `Represents.half`,
  `represents_ofNat`: exact results.
-/
import SchemaAtlas.Proofs.Decimal.Rounding

namespace SchemaAtlas

namespace Binary32

open Float.Model (Format UnpackedFloat totalExponent)
open Float.Model.UnpackedFloat

/-- Numbers that are stored exactly are zero or have digits. -/
theorem Represents.cases {x : Float32} {p : ℚ} (h : Represents x p) :
    (∃ s, parts x = .zero s ∧ p = 0) ∨
      ∃ s m e hm, parts x = .finite s m e hm ∧ p = unit s * (m * 2 ^ e) := by
  have hfinite : (parts x).isFinite = true := h.isFinite
  have hvalue : number (parts x) = p := h.value_eq
  generalize parts x = f at *
  cases f with
  | infinity s => cases hfinite
  | notANumber => cases hfinite
  | zero s => exact .inl ⟨s, rfl, hvalue.symm⟩
  | finite s m e hm => exact .inr ⟨s, m, e, hm, rfl, hvalue.symm⟩

-- ==================================================== products

theorem mul_eq (x y : Float32) :
    x * y = ofParts (UnpackedFloat.mul Format.binary32 (parts x) (parts y)) :=
  rfl

theorem finite_mul_finite (spec : Format) (s t : Sign) {m n : ℕ} {d e : ℤ} (hm : 0 < m)
    (hn : 0 < n) : UnpackedFloat.mul spec (.finite s m d hm) (.finite t n e hn) =
      roundWithAccuracy spec (s * t) (m * n) (d + e) .exact :=
  rfl

/-- The digits of a product are fine enough to be rounded. -/
theorem le_quantum_mul {s t : Sign} {m n : ℕ} {d e : ℤ} {hm : 0 < m} {hn : 0 < n}
    (hx : IsStored (.finite s m d hm)) (hy : IsStored (.finite t n e hn)) :
    d + e ≤ quantum (m * n) (d + e) := by
  obtain ⟨-, hmfirst, hd, -⟩ := hx
  obtain ⟨-, hnfirst, he, -⟩ := hy
  have hne : m * n ≠ 0 := (Nat.mul_pos hm hn).ne'
  have hlog : 23 ≤ (m * n).log2 ∨ d + e ≤ -149 := by
    rcases hmfirst with hmfirst | rfl
    · exact .inl ((Nat.le_log2 hne).2 (hmfirst.trans (Nat.le_mul_of_pos_right _ hn)))
    · rcases hnfirst with hnfirst | rfl
      · exact .inl ((Nat.le_log2 hne).2 (hnfirst.trans (Nat.le_mul_of_pos_left _ hm)))
      · exact .inr (by omega)
  unfold quantum
  omega

/-- A product is finite if its factors are and it is below the limit in
exact arithmetic. -/
theorem isFinite_mul_iff (x y : Float32) :
    (x * y).isFinite = true ↔
      x.isFinite = true ∧ y.isFinite = true ∧ |value x * value y| < limit := by
  show _ ↔ (parts x).isFinite = true ∧ (parts y).isFinite = true ∧
    |number (parts x) * number (parts y)| < limit
  have hx := isStored_parts x
  have hy := isStored_parts y
  rw [mul_eq]
  generalize parts x = f at *
  generalize parts y = g at *
  cases f <;> cases g
  case finite.finite s m d hm t n e hn =>
    have hvalue : |number (.finite s m d hm) * number (.finite t n e hn)| =
        (m * n : ℕ) * 2 ^ (d + e) := by
      rw [abs_mul, abs_number_finite, abs_number_finite, zpow_add₀ two_ne_zero]
      push_cast
      ring
    obtain ⟨k, u, hrounds, hround⟩ :=
      exists_rounds (s * t) (Nat.mul_pos hm hn) (le_quantum_mul hx hy)
    rw [hvalue, finite_mul_finite, hround, hrounds.isFinite_iff]
    exact ((and_iff_right rfl).trans (and_iff_right rfl)).symm
  all_goals
    simp [UnpackedFloat.mul, UnpackedFloat.isFinite, number, limit_pos]

/-- A product with a factor that is stored exactly. -/
theorem Represents.isFinite_mul_iff {x y : Float32} {p : ℚ} (hx : Represents x p)
    (hy : y.isFinite = true) : (x * y).isFinite = true ↔ |p * value y| < limit := by
  rw [Binary32.isFinite_mul_iff, hx.value_eq]
  exact (and_iff_right hx.isFinite).trans (and_iff_right hy)

theorem Represents.mul {x y : Float32} {p q : ℚ} (hx : Represents x p) (hy : Represents y q)
    (h : IsShort (p * q)) : Represents (x * y) (p * q) := by
  have hxstored := isStored_parts x
  have hystored := isStored_parts y
  rw [mul_eq]
  rcases hx.cases with ⟨s, hs, rfl⟩ | ⟨s, m, d, hm, hs, rfl⟩ <;>
    rcases hy.cases with ⟨t, ht, rfl⟩ | ⟨t, n, e, hn, ht, rfl⟩ <;>
    rw [hs] at hxstored <;> rw [ht] at hystored <;> rw [hs, ht]
  case inr.inr =>
    have hproduct : unit s * (m * 2 ^ d) * (unit t * (n * 2 ^ e)) =
        unit (s * t) * ((m * n : ℕ) * 2 ^ (d + e)) := by
      rw [unit_mul, zpow_add₀ two_ne_zero]
      push_cast
      ring
    obtain ⟨k, u, hrounds, hround⟩ :=
      exists_rounds (s * t) (Nat.mul_pos hm hn) (le_quantum_mul hxstored hystored)
    rw [hproduct] at h ⊢
    rw [finite_mul_finite, hround]
    exact hrounds.represents (by positivity) _ h
  all_goals
    simp only [zero_mul, mul_zero]
    exact represents_zero _

-- ==================================================== differences

theorem exists_apply {i : ℤ} (h : i ≠ 0) : ∃ (s : Sign) (m : ℕ), 0 < m ∧ i = s.apply m := by
  rcases h.lt_or_gt with hneg | hpos
  · exact ⟨.negative, i.natAbs, by omega, show i = -(i.natAbs : ℤ) by omega⟩
  · exact ⟨.positive, i.natAbs, by omega, show i = (i.natAbs : ℤ) by omega⟩

theorem normalize_apply (s : Sign) {m : ℕ} (hm : 0 < m) (e : ℤ) (z : Sign) :
    UnpackedFloat.normalize Format.binary32 (s.apply m) e z =
      UnpackedFloat.round Format.binary32 s m e := by
  unfold UnpackedFloat.normalize
  cases s with
  | negative =>
      have hsign : compare (-(m : ℤ)) 0 = .lt := compare_lt_iff_lt.2 (by omega)
      simp only [Sign.apply, hsign, neg_neg, Int.toNat_natCast]
  | positive =>
      have hsign : compare (m : ℤ) 0 = .gt := compare_gt_iff_gt.2 (by omega)
      simp only [Sign.apply, hsign, Int.toNat_natCast]

theorem represents_normalize {i e : ℤ} (z : Sign) (h : IsShort (i * 2 ^ e)) :
    Represents (ofParts (UnpackedFloat.normalize Format.binary32 i e z)) (i * 2 ^ e) := by
  by_cases hzero : i = 0
  · rw [hzero, Int.cast_zero, zero_mul]
    exact represents_zero z
  · obtain ⟨s, m, hm, rfl⟩ := exists_apply hzero
    obtain ⟨n, t, hrounds, hround⟩ := exists_rounds_round s hm e
    rw [cast_apply, mul_assoc] at h ⊢
    rw [normalize_apply s hm, hround]
    exact hrounds.represents (by positivity) s h

theorem decreaseExponent_mul_zpow {m : ℕ} {e t : ℤ} (h : t ≤ e) :
    ((decreaseExponent m e t).1 : ℚ) * 2 ^ t = m * 2 ^ e := by
  have ht : t = e - (e - t).toNat := by omega
  show ((m <<< (e - t).toNat : ℕ) : ℚ) * 2 ^ t = _
  rw [← shiftLeft_mul_zpow m (e - t).toNat e, ← ht]

theorem Represents.sub {x y : Float32} {p q : ℚ} (hx : Represents x p) (hy : Represents y q)
    (h : IsShort (p - q)) : Represents (x - y) (p - q) := by
  have hxstored := isStored_parts x
  have hystored := isStored_parts y
  show Represents (ofParts (UnpackedFloat.sub Format.binary32 (parts x) (parts y))) _
  rcases hx.cases with ⟨s, hs, rfl⟩ | ⟨s, m, d, hm, hs, rfl⟩ <;>
    rcases hy.cases with ⟨t, ht, rfl⟩ | ⟨t, n, e, hn, ht, rfl⟩ <;>
    rw [hs] at hxstored <;> rw [ht] at hystored <;> rw [hs, ht]
  · rw [sub_zero]
    unfold UnpackedFloat.sub
    dsimp only
    split <;> exact represents_zero _
  · have hnumber : 0 - unit t * (n * 2 ^ e) = number (.finite (-t) n e hn) := by
      rw [number, unit_neg, zero_sub, neg_mul]
    rw [hnumber]
    exact represents_ofParts (f := .finite (-t) n e hn) hystored rfl
  · rw [sub_zero]
    exact represents_ofParts (f := .finite s m d hm) hxstored rfl
  · let least := min d e
    have hdifference : unit s * (m * 2 ^ d) - unit t * (n * 2 ^ e) =
        ((s.apply (decreaseExponent m d least).1 - t.apply (decreaseExponent n e least).1 : ℤ) : ℚ)
          * 2 ^ least := by
      rw [Int.cast_sub, cast_apply, cast_apply, sub_mul, mul_assoc, mul_assoc,
        decreaseExponent_mul_zpow (min_le_left d e), decreaseExponent_mul_zpow (min_le_right d e)]
    rw [hdifference] at h ⊢
    exact represents_normalize .positive h

-- ==================================================== halves

theorem parts_two : parts 2 = .finite .positive (2 ^ 23) (-22) (by decide) :=
  rfl

theorem zero_div_finite (spec : Format) (s t : Sign) {n : ℕ} {e : ℤ} (hn : 0 < n) :
    UnpackedFloat.div spec (.zero s) (.finite t n e hn) = .zero (s / t) :=
  rfl

theorem finite_div_finite (spec : Format) (s t : Sign) {m n : ℕ} {d e : ℤ} (hm : 0 < m)
    (hn : 0 < n) : UnpackedFloat.div spec (.finite s m d hm) (.finite t n e hn) =
      roundWithAccuracy spec (s / t) (divCore spec m d n e).1 (divCore spec m d n e).2.1
        (divCore spec m d n e).2.2 :=
  rfl

theorem divCore_two {m : ℕ} {e : ℤ} (hm : m.log2 = 23) (he : -147 ≤ e) :
    divCore Format.binary32 m e (2 ^ 23) (-22) = (2 * m, e - 2, .exact) := by
  have htarget : min (e - -22) (Format.binary32.targetExponent
      (totalExponent m e - totalExponent (2 ^ 23) (-22))) = e - 2 := by
    have hdivisor : totalExponent (2 ^ 23) (-22) = 2 := rfl
    rw [hdivisor]
    unfold totalExponent
    rw [hm]
    show min _ (max (_ - 24) (-149)) = _
    omega
  have hshift : (e - -22 - (e - 2)).toNat = 24 := by omega
  have hdigits : m <<< 24 = 2 * m * 2 ^ 23 := by
    rw [Nat.shiftLeft_eq]
    omega
  unfold divCore
  simp only [htarget, hshift, hdigits]
  rw [Nat.mul_div_cancel _ (by positivity), Nat.mul_mod_left]
  rfl

/-- A stored number that is not small has all its digits. -/
theorem IsStored.of_one_le {s : Sign} {m : ℕ} {e : ℤ} {hm : 0 < m}
    (h : IsStored (.finite s m e hm)) (hone : (1 : ℚ) ≤ m * 2 ^ e) : -24 < e ∧ m.log2 = 23 := by
  obtain ⟨hlt, hfirst, -, -⟩ := h
  have hpowers : (2 : ℚ) ^ (0 : ℤ) < 2 ^ (e + 24) := by
    rw [zpow_zero]
    exact hone.trans_lt (natCast_mul_zpow_lt hlt e)
  have hexponent := (zpow_lt_zpow_iff_right₀ one_lt_two).1 hpowers
  exact ⟨by omega, (Nat.log2_eq_iff hm.ne').2 ⟨hfirst.resolve_right (by omega), hlt⟩⟩

/-- Half of a number that has all its digits: the digits stay, the
exponent goes down. -/
theorem represents_half {s : Sign} {m : ℕ} {e : ℤ} (hm : 0 < m) (hlog : m.log2 = 23)
    (hleast : -147 ≤ e) (hgreatest : e ≤ 104) :
    Represents (ofParts (UnpackedFloat.div Format.binary32 (.finite s m e hm)
      (.finite .positive (2 ^ 23) (-22) (by decide)))) (unit s * (m * 2 ^ e) / 2) := by
  have hhalf : unit s * (m * 2 ^ e) / 2 = unit (s / .positive) * ((2 * m : ℕ) * 2 ^ (e - 2)) := by
    rw [unit_div_positive, zpow_sub₀ two_ne_zero]
    push_cast
    ring
  have hshort : IsShort (unit s * (m * 2 ^ e) / 2) := by
    have habs : |unit s * (m * 2 ^ e) / 2| = m * 2 ^ (e - 1) := by
      rw [abs_div, abs_mul, abs_unit, one_mul, abs_of_nonneg (by positivity), abs_two,
        zpow_sub_one₀ two_ne_zero]
      ring
    exact ⟨m, e - 1, habs, ((Nat.log2_eq_iff hm.ne').1 hlog).2, by omega, by omega⟩
  have hquantum : e - 2 ≤ quantum (2 * m) (e - 2) := by
    unfold quantum
    rw [Nat.log2_two_mul hm.ne', hlog]
    omega
  obtain ⟨k, t, hrounds, hround⟩ := exists_rounds (s / .positive) (Nat.mul_pos two_pos hm) hquantum
  rw [finite_div_finite, divCore_two hlog hleast]
  dsimp only
  rw [hhalf] at hshort ⊢
  rw [hround]
  exact hrounds.represents (by positivity) _ hshort

theorem Represents.half {x : Float32} {p : ℚ} (hx : Represents x p) (h : p ≠ 0 → 1 ≤ |p|) :
    Represents (x / 2) (p / 2) := by
  have hxstored := isStored_parts x
  show Represents (ofParts (UnpackedFloat.div Format.binary32 (parts x) (parts 2))) _
  rw [parts_two]
  rcases hx.cases with ⟨s, hs, rfl⟩ | ⟨s, m, e, hm, hs, rfl⟩ <;> rw [hs] at hxstored ⊢
  · rw [zero_div, zero_div_finite]
    exact represents_zero _
  · have habs : |unit s * ((m : ℚ) * 2 ^ e)| = m * 2 ^ e := abs_number_finite s e hm
    have hpos : 0 < (m : ℚ) * 2 ^ e := mul_pos (Nat.cast_pos.2 hm) (by positivity)
    have hone := h (abs_pos.1 (habs.symm ▸ hpos))
    rw [habs] at hone
    obtain ⟨hexponent, hlog⟩ := hxstored.of_one_le hone
    obtain ⟨-, -, -, hgreatest⟩ := hxstored
    exact represents_half hm hlog (by omega) hgreatest

-- ==================================================== whole numbers

theorem isShort_natCast {n : ℕ} (h : n < 2 ^ 24) : IsShort n :=
  ⟨n, 0, by rw [Nat.abs_cast, zpow_zero, mul_one], h, by decide, by decide⟩

theorem represents_one : Represents (Float32.ofBits 0x3F800000) 1 := by
  have hparts : parts (Float32.ofBits 0x3F800000) =
      .finite .positive (2 ^ 23) (-23) (by decide) := rfl
  refine ⟨rfl, ?_⟩
  unfold value
  rw [hparts]
  norm_num [number, unit]

/-- A number of a machine word has nothing to be rounded off. -/
theorem represents_ofParts_ofNat {n : ℕ} (h : n < 2 ^ 24) :
    Represents (ofParts (UnpackedFloat.ofNat Format.binary32 n)) n := by
  have hn : (n : ℚ) = ((n : ℤ) : ℚ) * 2 ^ (0 : ℤ) := by
    rw [zpow_zero, mul_one, Int.cast_natCast]
  have hshort : IsShort n := isShort_natCast h
  rw [hn] at hshort ⊢
  exact represents_normalize .positive hshort

/-- Digits without a point in them are moved to the left of the exponent
and rounded. -/
theorem represents_ofScientific {n : ℕ} (h : n < 2 ^ 24) (hne : n ≠ 0) :
    Represents (ofParts (UnpackedFloat.ofScientific Format.binary32 n 0)) n := by
  have hquantum : (0 : ℤ) - (24 : ℕ) ≤ quantum (n <<< 24) (0 - (24 : ℕ)) := by
    rw [quantum_shiftLeft (Nat.pos_of_ne_zero hne)]
    unfold quantum
    omega
  have hshift : 0 < n <<< 24 := Nat.pos_of_ne_zero (mt Nat.shiftLeft_eq_zero_iff.1 hne)
  obtain ⟨k, t, hrounds, hround⟩ := exists_rounds Sign.positive hshift hquantum
  rw [shiftLeft_mul_zpow] at hrounds
  have hdigits : n <<< Format.binary32.mantissaBits * 10 ^ (0 : ℤ).toNat = n <<< 24 := mul_one _
  have hexponent : -(Format.binary32.mantissaBits : ℤ) + 0 = 0 - (24 : ℕ) := rfl
  have hsign : Sign.positive * Sign.positive = Sign.positive := rfl
  have hn : (n : ℚ) = unit Sign.positive * (n * 2 ^ (0 : ℤ)) := by
    rw [zpow_zero, mul_one, unit, one_mul]
  have hshort : IsShort n := isShort_natCast h
  unfold UnpackedFloat.ofScientific
  rw [dif_neg hne, if_neg (by decide), if_neg, if_pos le_rfl]
  · rw [finite_mul_finite, hsign, hdigits, hexponent, hround]
    rw [hn] at hshort ⊢
    exact hrounds.represents (by positivity) Sign.positive hshort
  · show ¬ 0 < -(256 + (n.log2 : ℤ))
    omega

/-- Numbers of 24 digits are converted as they are. Those of 23 are
multiplied by one, the others are rounded. -/
theorem represents_ofNat {n : ℕ} (h : n < 2 ^ 24) : Represents (Float32.ofNat n) n := by
  show Represents (Float32.ofScientific n false 0) n
  unfold Float32.ofScientific
  split
  · next hsmall =>
    have hsize : n.toUInt64.toNat = n :=
      UInt64.toNat_ofNat_of_lt' (hsmall.1.trans (by decide))
    have hword : Represents (ofParts (UnpackedFloat.ofNat Format.binary32 n.toUInt64.toNat)) n := by
      rw [hsize]
      exact represents_ofParts_ofNat h
    have hproduct := hword.mul represents_one (by rw [mul_one]; exact isShort_natCast h)
    rw [mul_one] at hproduct
    exact hproduct
  · next hlarge => exact represents_ofScientific h (by omega)

end Binary32

end SchemaAtlas
