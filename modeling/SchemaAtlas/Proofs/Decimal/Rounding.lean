/-
Rounding to binary32. Digits that do not fit are shifted out one by one;
two bits remember of them as much as it takes to find the nearest number
that fits, the even one of two. What the bits say (`Holds`) is kept by
every shift, so it holds after any number of shifts, and it is enough for
`IsNearest`.

A positive number is rounded at the exponent that leaves it 24 digits,
but at no finer one than the least (`Rounds`). All that arithmetic needs
is read off this: which numbers are rounded to infinity, namely those from
`limit` on, and which ones are not changed.

- `Binary32.Holds`, `Binary32.IsNearest`: what is left of the digits that
  were shifted out, and what is made of it.
- `Binary32.Rounds`, `Binary32.exists_rounds`, `exists_rounds_round`: the
  result of rounding.
- `Binary32.Rounds.isFinite_iff`, `Binary32.Rounds.represents`: the number
  that is stored.
-/
import SchemaAtlas.Proofs.Decimal.Binary32

namespace SchemaAtlas

namespace Binary32

open Float.Model (Format UnpackedFloat)
open Float.Model.UnpackedFloat

-- ==================================================== nearest number

/-- No whole number is nearer, and of two equally near ones this is the
even one. -/
def IsNearest (n : ℕ) (x : ℚ) : Prop :=
  |x - n| ≤ 1 / 2 ∧ (|x - n| = 1 / 2 → Even n)

namespace IsNearest

variable {n k : ℕ} {x : ℚ}

theorem bounds (h : IsNearest n x) : x - 1 / 2 ≤ n ∧ (n : ℚ) ≤ x + 1 / 2 := by
  have habs := abs_le.1 h.1
  constructor <;> linarith

theorem le_of_le (h : IsNearest n x) (hx : x ≤ k) : n ≤ k := by
  have hlt : (n : ℚ) < (k + 1 : ℕ) := by
    push_cast
    linarith [h.bounds.2]
  exact Nat.le_of_lt_succ (Nat.cast_lt.1 hlt)

theorem le_of_ge (h : IsNearest n x) (hx : k ≤ x) : k ≤ n := by
  have hlt : (k : ℚ) < (n + 1 : ℕ) := by
    push_cast
    linarith [h.bounds.1]
  exact Nat.le_of_lt_succ (Nat.cast_lt.1 hlt)

/-- An even number is reached from half below it on. -/
theorem lt_iff (h : IsNearest n x) (hk : Even k) : n < k ↔ x < k - 1 / 2 := by
  constructor
  · intro hn
    have hle : (n : ℚ) + 1 ≤ k := by exact_mod_cast hn
    refine lt_of_le_of_ne (by linarith [h.bounds.1]) fun hx => ?_
    -- a tie below an even number is one above an odd number
    have hnext : n + 1 = k := by
      have hge : (k : ℚ) ≤ (n + 1 : ℕ) := by
        push_cast
        linarith [h.bounds.1]
      exact Nat.le_antisymm hn (Nat.cast_le.1 hge)
    have hgap : x - n = 1 / 2 := by
      rw [hx, ← hnext]
      push_cast
      ring
    have heven : Even n := h.2 (by rw [hgap]; norm_num)
    rw [← hnext, Nat.even_add_one] at hk
    exact hk heven
  · intro hx
    have hlt : (n : ℚ) < k := by linarith [h.bounds.2]
    exact Nat.cast_lt.1 hlt

end IsNearest

-- ==================================================== shifting

/-- What the bits say of the number that was shifted: it is the mantissa,
and a half more for the round bit, exactly so or with less than a half
above that for the sticky bit. -/
def Holds (em : ExtendedMantissa) (x : ℚ) : Prop :=
  if em.stickyBit then
    (em.mantissa : ℚ) + (if em.roundBit then 1 / 2 else 0) < x ∧
      x < em.mantissa + (if em.roundBit then 1 / 2 else 0) + 1 / 2
  else x = em.mantissa + if em.roundBit then 1 / 2 else 0

namespace Holds

variable {em : ExtendedMantissa} {x : ℚ}

theorem of_exact (m : ℕ) : Holds ⟨m, false, false⟩ m :=
  (add_zero _).symm

theorem shiftRightOne (h : Holds em x) : Holds em.shiftRightOne (x / 2) := by
  obtain ⟨m, roundBit, stickyBit⟩ := em
  have hm : (m : ℚ) = 2 * (m / 2 : ℕ) + (m % 2 : ℕ) := by
    exact_mod_cast (Nat.div_add_mod m 2).symm
  rcases Nat.mod_two_eq_zero_or_one m with hlast | hlast <;> cases roundBit <;>
    cases stickyBit <;> simp [Holds, ExtendedMantissa.shiftRightOne, hlast] at h hm ⊢ <;>
    first | linarith | constructor <;> linarith

theorem shiftRight (h : Holds em x) (k : ℕ) : Holds (em >>> k) (x / 2 ^ k) := by
  show Holds (k.repeat ExtendedMantissa.shiftRightOne em) _
  induction k with
  | zero => rwa [pow_zero, div_one]
  | succ k ih =>
      rw [pow_succ, ← div_div]
      exact ih.shiftRightOne

/-- The bits are enough to find the nearest number. -/
theorem isNearest (h : Holds em x) : IsNearest em.roundedMantissa x := by
  obtain ⟨m, roundBit, stickyBit⟩ := em
  cases roundBit <;> cases stickyBit <;>
    simp only [Holds, if_true, if_false, Bool.false_eq_true, add_zero] at h
  · show IsNearest m x
    have habs : |x - m| = 0 := by rw [h, sub_self, abs_zero]
    rw [IsNearest, habs]
    exact ⟨by positivity, fun hhalf => by linarith⟩
  · show IsNearest m x
    have habs : |x - m| = x - m := abs_of_nonneg (by linarith)
    rw [IsNearest, habs]
    exact ⟨by linarith, fun hhalf => by linarith⟩
  · show IsNearest (m + m % 2) x
    have heven : Even (m + m % 2) := Nat.even_iff.2 (by omega)
    have hlast : ((m % 2 : ℕ) : ℚ) ≤ 1 := by
      exact_mod_cast Nat.le_of_lt_succ (Nat.mod_lt m two_pos)
    have hpos : (0 : ℚ) ≤ (m % 2 : ℕ) := Nat.cast_nonneg _
    refine ⟨?_, fun _ => heven⟩
    rw [abs_le, h]
    push_cast
    constructor <;> linarith
  · show IsNearest (m + 1) x
    have habs : |x - (m + 1 : ℕ)| = m + 1 - x := by
      push_cast
      rw [abs_of_nonpos (by linarith)]
      ring
    rw [IsNearest, habs]
    exact ⟨by linarith, fun hhalf => by linarith⟩

end Holds

-- ==================================================== digits

/-- A power of two in front of another. -/
theorem natCast_two_pow_mul (k : ℕ) (e : ℤ) : ((2 ^ k : ℕ) : ℚ) * 2 ^ e = 2 ^ (e + k) := by
  rw [Nat.cast_pow, Nat.cast_ofNat, ← zpow_natCast, ← zpow_add₀ two_ne_zero, add_comm]

theorem natCast_mul_zpow_lt {m k : ℕ} (h : m < 2 ^ k) (e : ℤ) :
    (m : ℚ) * 2 ^ e < 2 ^ (e + k) := by
  rw [← natCast_two_pow_mul]
  exact mul_lt_mul_of_pos_right (Nat.cast_lt.2 h) (by positivity)

theorem zpow_le_natCast_mul {m k : ℕ} (h : 2 ^ k ≤ m) (e : ℤ) :
    (2 : ℚ) ^ (e + k) ≤ m * 2 ^ e := by
  rw [← natCast_two_pow_mul]
  exact mul_le_mul_of_nonneg_right (Nat.cast_le.2 h) (by positivity)

/-- Digits are moved in front of the exponent. -/
theorem shiftLeft_mul_zpow (m k : ℕ) (e : ℤ) : ((m <<< k : ℕ) : ℚ) * 2 ^ (e - k) = m * 2 ^ e := by
  rw [Nat.shiftLeft_eq, Nat.cast_mul, mul_assoc, natCast_two_pow_mul, sub_add_cancel]

theorem log2_shiftLeft {m : ℕ} (hm : 0 < m) (k : ℕ) : (m <<< k).log2 = m.log2 + k := by
  induction k with
  | zero => rfl
  | succ k ih =>
      have hne : m <<< k ≠ 0 := mt Nat.shiftLeft_eq_zero_iff.1 hm.ne'
      rw [Nat.shiftLeft_succ, Nat.log2_two_mul hne, ih]
      rfl

-- ==================================================== rounded numbers

/-- A positive number `a` is rounded to `n * 2 ^ t`, if this is not too
large: it has 24 digits in front of the exponent `t`, less only under the
least exponent, and `n` is nearest to them. -/
structure Rounds (a : ℚ) (n : ℕ) (t : ℤ) : Prop where
  least : -149 ≤ t
  digits : a < 2 ^ (t + 24)
  first : t = -149 ∨ 2 ^ (t + 23) ≤ a
  nearest : IsNearest n (a / 2 ^ t)

/-- Half a unit above the greatest number of 24 digits in front of the
greatest exponent. -/
def limit : ℚ :=
  (2 ^ 25 - 1) * 2 ^ 103

theorem limit_pos : 0 < limit := by
  norm_num [limit]

namespace Rounds

variable {a : ℚ} {n : ℕ} {t : ℤ}

theorem le (h : Rounds a n t) : n ≤ 2 ^ 24 := by
  refine h.nearest.le_of_le ?_
  rw [div_le_iff₀ (by positivity), natCast_two_pow_mul]
  exact h.digits.le

theorem ge (h : Rounds a n t) (ht : t ≠ -149) : 2 ^ 23 ≤ n := by
  refine h.nearest.le_of_ge ?_
  rw [le_div_iff₀ (by positivity), natCast_two_pow_mul]
  exact h.first.resolve_left ht

/-- A number with 24 digits, in front of any exponent that is not too
fine, is not changed. -/
theorem mul_zpow_eq (h : Rounds a n t) {k : ℕ} {e : ℤ} (ha : a = k * 2 ^ e) (hk : k < 2 ^ 24)
    (he : -149 ≤ e) : n * 2 ^ t = a := by
  have hle : t ≤ e := by
    by_contra hlt
    have hfirst : (2 : ℚ) ^ (t + 23) ≤ a := h.first.resolve_left (by omega)
    have hdigits : a < 2 ^ (e + 24) := ha ▸ natCast_mul_zpow_lt hk e
    have hpowers := (zpow_lt_zpow_iff_right₀ one_lt_two).1 (hfirst.trans_lt hdigits)
    omega
  obtain ⟨d, hd⟩ := Int.le.dest hle
  have hwhole : a / 2 ^ t = (k * 2 ^ d : ℕ) := by
    rw [div_eq_iff (by positivity), ha, Nat.cast_mul, mul_assoc, natCast_two_pow_mul, hd]
  have hn : n = k * 2 ^ d :=
    Nat.le_antisymm (h.nearest.le_of_le hwhole.le) (h.nearest.le_of_ge hwhole.ge)
  rw [hn, ← hwhole, div_mul_cancel₀ _ (by positivity)]

/-- Below the limit the exponent fits, also after a carry. -/
theorem lt_limit_iff (h : Rounds a n t) : a < limit ↔ t < 104 ∨ t = 104 ∧ n < 2 ^ 24 := by
  rcases lt_trichotomy t 104 with hlt | rfl | hgt
  · have hpowers : (2 : ℚ) ^ (t + 24) ≤ 2 ^ (127 : ℤ) :=
      zpow_le_zpow_right₀ one_le_two (by omega)
    refine iff_of_true (h.digits.trans (hpowers.trans_lt ?_)) (.inl hlt)
    norm_num [limit]
  · rw [h.nearest.lt_iff (by decide), div_lt_iff₀ (by positivity)]
    norm_num [limit]
  · have hpowers : (2 : ℚ) ^ (128 : ℤ) ≤ 2 ^ (t + 23) :=
      zpow_le_zpow_right₀ one_le_two (by omega)
    have hfirst := h.first.resolve_left (by omega)
    refine iff_of_false (not_lt.2 (le_trans ?_ (hpowers.trans hfirst))) (by omega)
    norm_num [limit]

end Rounds

-- ==================================================== results of rounding

/-- The parts of a rounded number. A carry into a digit too many leaves
one less, under the next exponent. -/
def rounded (s : Sign) (n : ℕ) (t : ℤ) : UnpackedFloat :=
  if h : n = 0 then .zero s
  else if n < 2 ^ 24 then .finite s n t (Nat.pos_of_ne_zero h)
  else .finite s (2 ^ 23) (t + 1) (by decide)

/-- The exponent at which digits are rounded. -/
def quantum (m : ℕ) (e : ℤ) : ℤ :=
  max (m.log2 + 1 + e - 24) (-149)

theorem quantum_shiftLeft {m : ℕ} (hm : 0 < m) (e : ℤ) (k : ℕ) :
    quantum (m <<< k) (e - k) = quantum m e := by
  unfold quantum
  rw [log2_shiftLeft hm]
  push_cast
  congr 1
  ring

theorem shiftToTargetExponent_eq {m : ℕ} {e : ℤ} (h : e ≤ quantum m e) :
    shiftToTargetExponent Format.binary32 m e .exact =
      (ExtendedMantissa.mk m false false >>> (quantum m e - e).toNat, quantum m e) := by
  have hexponent : e + (quantum m e - e).toNat = quantum m e := by omega
  exact Prod.ext rfl hexponent

theorem shiftToTargetExponent_of_lt {m : ℕ} (hm : m < 2 ^ 24) {t : ℤ} (ht : -149 ≤ t) :
    shiftToTargetExponent Format.binary32 m t .exact = (⟨m, false, false⟩, t) := by
  have hlog : m.log2 < 24 := by
    rcases Nat.eq_zero_or_pos m with rfl | hpos
    · decide
    · exact (Nat.log2_lt hpos.ne').2 hm
  have hshift : (quantum m t - t).toNat = 0 := by
    unfold quantum
    omega
  have hexponent : t + (quantum m t - t).toNat = t := by omega
  refine Prod.ext ?_ hexponent
  show ExtendedMantissa.mk m false false >>> (quantum m t - t).toNat = _
  rw [hshift]
  rfl

theorem shiftToTargetExponent_carry {t : ℤ} (ht : -149 ≤ t) :
    shiftToTargetExponent Format.binary32 (2 ^ 24) t .exact = (⟨2 ^ 23, false, false⟩, t + 1) := by
  have hquantum : quantum (2 ^ 24) t = t + 1 := by
    have hlog : (2 ^ 24).log2 = 24 := Nat.log2_two_pow
    unfold quantum
    omega
  rw [shiftToTargetExponent_eq (by omega), hquantum, add_sub_cancel_left]
  rfl

theorem roundWithAccuracy_eq_rounded (s : Sign) {m : ℕ} {e : ℤ} {em : ExtendedMantissa} {t : ℤ}
    (hshift : shiftToTargetExponent Format.binary32 m e .exact = (em, t))
    (hle : em.roundedMantissa ≤ 2 ^ 24) (ht : -149 ≤ t) :
    roundWithAccuracy Format.binary32 s m e .exact = rounded s em.roundedMantissa t := by
  unfold roundWithAccuracy rounded
  simp only [hshift]
  rcases hle.lt_or_eq with hlt | hcarry
  · simp only [shiftToTargetExponent_of_lt hlt ht, if_pos hlt]
  · simp only [hcarry, shiftToTargetExponent_carry ht]
    rfl

/-- Digits that are fine enough are rounded. -/
theorem exists_rounds (s : Sign) {m : ℕ} (hm : 0 < m) {e : ℤ} (he : e ≤ quantum m e) :
    ∃ n t, Rounds (m * 2 ^ e) n t
      ∧ roundWithAccuracy Format.binary32 s m e .exact = rounded s n t := by
  let t := quantum m e
  let em := ExtendedMantissa.mk m false false >>> (t - e).toNat
  have hquantum : t = max (m.log2 + 1 + e - 24) (-149) := rfl
  have hshift : (2 : ℚ) ^ t = 2 ^ (t - e).toNat * 2 ^ e := by
    rw [← zpow_natCast, ← zpow_add₀ two_ne_zero, Int.toNat_of_nonneg (by omega), sub_add_cancel]
  have hnearest : IsNearest em.roundedMantissa (m * 2 ^ e / 2 ^ t) := by
    rw [hshift, mul_div_mul_right _ _ (by positivity)]
    exact ((Holds.of_exact m).shiftRight (t - e).toNat).isNearest
  have hlow := zpow_le_natCast_mul (Nat.log2_self_le hm.ne') e
  have hhigh := natCast_mul_zpow_lt Nat.lt_log2_self e (m := m)
  have hrounds : Rounds (m * 2 ^ e) em.roundedMantissa t := by
    refine ⟨le_max_right _ _, hhigh.trans_le (zpow_le_zpow_right₀ one_le_two (by omega)), ?_,
      hnearest⟩
    rw [or_iff_not_imp_left]
    intro hne
    exact (zpow_le_zpow_right₀ one_le_two (by omega)).trans hlow
  exact ⟨em.roundedMantissa, t, hrounds,
    roundWithAccuracy_eq_rounded s (shiftToTargetExponent_eq he) hrounds.le hrounds.least⟩

/-- Digits that are too coarse are made finer first. -/
theorem exists_rounds_round (s : Sign) {m : ℕ} (hm : 0 < m) (e : ℤ) :
    ∃ n t, Rounds (m * 2 ^ e) n t
      ∧ UnpackedFloat.round Format.binary32 s m e = rounded s n t := by
  let k := (e - quantum m e).toNat
  have hpos : 0 < m <<< k := Nat.pos_of_ne_zero (mt Nat.shiftLeft_eq_zero_iff.1 hm.ne')
  have hle : e - k ≤ quantum (m <<< k) (e - k) := by
    rw [quantum_shiftLeft hm]
    omega
  obtain ⟨n, t, hrounds, hround⟩ := exists_rounds s hpos hle
  rw [shiftLeft_mul_zpow] at hrounds
  exact ⟨n, t, hrounds, hround⟩

-- ==================================================== what is stored

/-- The number has 24 digits in front of an exponent that is stored. -/
def IsShort (q : ℚ) : Prop :=
  ∃ (k : ℕ) (e : ℤ), |q| = k * 2 ^ e ∧ k < 2 ^ 24 ∧ -149 ≤ e ∧ e ≤ 104

theorem IsShort.lt_limit {q : ℚ} (h : IsShort q) : |q| < limit := by
  obtain ⟨k, e, hq, hk, -, he⟩ := h
  have hdigits : (k : ℚ) ≤ 2 ^ 24 - 1 := by
    rw [le_sub_iff_add_le]
    exact_mod_cast hk
  have hpower : (2 : ℚ) ^ e ≤ 2 ^ (104 : ℤ) := zpow_le_zpow_right₀ one_le_two he
  calc |q| = k * 2 ^ e := hq
    _ ≤ (2 ^ 24 - 1) * 2 ^ (104 : ℤ) := mul_le_mul hdigits hpower (by positivity) (by norm_num)
    _ < limit := by norm_num [limit]

/-- What is stored is finite and is the number itself. -/
structure Represents (x : Float32) (q : ℚ) : Prop where
  isFinite : x.isFinite = true
  value_eq : value x = q

theorem represents_ofParts {f : UnpackedFloat} (hstored : IsStored f)
    (hfinite : f.isFinite = true) : Represents (ofParts f) (number f) :=
  ⟨(isFinite_ofParts hstored).trans hfinite, congrArg number (parts_ofParts hstored)⟩

theorem represents_zero (s : Sign) : Represents (ofParts (.zero s)) 0 :=
  represents_ofParts (f := .zero s) trivial rfl

namespace Rounds

variable {a : ℚ} {n : ℕ} {t : ℤ}

theorem isStored (h : Rounds a n t) (ha : a < limit) (s : Sign) : IsStored (rounded s n t) := by
  have hfits := h.lt_limit_iff.1 ha
  have hleast := h.least
  unfold rounded
  split_ifs with hzero hlt
  · trivial
  · refine ⟨hlt, ?_, hleast, by omega⟩
    rw [or_iff_not_imp_right]
    exact h.ge
  · exact ⟨by decide, .inl le_rfl, by omega, by omega⟩

/-- Numbers below the limit are rounded to finite ones, others are not. -/
theorem isFinite_iff (h : Rounds a n t) (s : Sign) :
    (ofParts (rounded s n t)).isFinite = true ↔ a < limit := by
  constructor
  · intro hfinite
    rw [h.lt_limit_iff]
    by_contra hlarge
    have hfirst := h.ge
    unfold rounded at hfinite
    split_ifs at hfinite with hzero hlt
    · omega
    · rw [isFinite_ofParts_of_overflow _ _ (by omega)] at hfinite
      cases hfinite
    · rw [isFinite_ofParts_of_overflow _ _ (by omega)] at hfinite
      cases hfinite
  · intro ha
    rw [isFinite_ofParts (h.isStored ha s)]
    unfold rounded
    split_ifs <;> rfl

theorem number_rounded (h : Rounds a n t) (s : Sign) :
    number (rounded s n t) = unit s * (n * 2 ^ t) := by
  unfold rounded
  split_ifs with hzero hlt
  · rw [hzero, Nat.cast_zero, zero_mul, mul_zero]
    rfl
  · rfl
  · have hn : n = 2 ^ 24 := h.le.antisymm (not_lt.1 hlt)
    show unit s * ((2 ^ 23 : ℕ) * 2 ^ (t + 1)) = _
    rw [hn, natCast_two_pow_mul, natCast_two_pow_mul]
    congr 2
    push_cast
    ring

/-- A number of 24 digits is stored as it is. -/
theorem represents (h : Rounds a n t) (ha : 0 ≤ a) (s : Sign) (hshort : IsShort (unit s * a)) :
    Represents (ofParts (rounded s n t)) (unit s * a) := by
  have habs : |unit s * a| = a := by
    rw [abs_mul, abs_unit, one_mul, abs_of_nonneg ha]
  have hlt : a < limit := habs ▸ hshort.lt_limit
  obtain ⟨k, e, hk, hdigits, he, -⟩ := hshort
  refine ⟨(h.isFinite_iff s).2 hlt, ?_⟩
  show number (parts (ofParts (rounded s n t))) = _
  rw [parts_ofParts (h.isStored hlt s), h.number_rounded,
    h.mul_zpow_eq (habs.symm.trans hk) hdigits he]

end Rounds

end Binary32

end SchemaAtlas
