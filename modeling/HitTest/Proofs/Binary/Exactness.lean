import HitTest.Proofs.Binary.Arithmetic
import HitTest.Scalar

/-!
# Numbers that are not rounded

What a significand holds and what is below infinity is a number of the format, and an operation
whose exact result is such a number returns it. Small natural numbers and their halves are, so the
constants of the geometry are what they are written as.
-/

namespace HitTest

namespace Format

variable {f : Format}

/-- Where the numbers of a format end. -/
theorem valueAt_top (f : Format) : f.valueAt f.top = 2 ^ 2 ^ (f.exponentBits - 1) := by
  have e : f.top = (2 ^ f.exponentBits - 2) * f.leading + f.leading := by
    rw [top_eq]
    cases f <;> rfl
  rw [e, f.valueAt_steps (by omega) (.inr le_rfl), leading_eq_pow, unit, Nat.cast_pow,
    Nat.cast_ofNat, ← pow_add, ← zpow_natCast, ← zpow_add₀ two_ne_zero, ← zpow_natCast]
  congr 1
  cases f <;> rfl

theorem four_lt_valueAt_top (f : Format) : 4 < f.valueAt f.top := by
  rw [valueAt_top, show (4 : ℚ) = 2 ^ 2 by norm_num]
  exact pow_lt_pow_right₀ one_lt_two (by cases f <;> decide)

/-- A power of two is a multiple of every smaller one. -/
theorem zpow_eq_unit (f : Format) {j : Int} (hj : f.unitExponent ≤ j) :
    (2 : ℚ) ^ j = 2 ^ (j - f.unitExponent).toNat * f.unit := by
  rw [unit, ← zpow_natCast, ← zpow_add₀ two_ne_zero]
  congr 1
  omega

end Format

namespace Binary

variable {f : Format} {x y z : Binary f} {a : ℚ}

theorem isFinite_of_abs_lt (hx : x.isNumber = true) (h : |x.value| < f.valueAt f.top) :
    x.IsFinite := by
  refine ⟨hx, ?_⟩
  rw [value, ← Format.valueAt_abs] at h
  exact f.valueAt_strictMono.lt_iff_lt.1 h

theorem IsFinite.abs_value_lt (h : x.IsFinite) : |x.value| < f.valueAt f.top := by
  rw [value, ← Format.valueAt_abs]
  exact f.valueAt_strictMono h.2

theorem isFinite_of_abs_le_four (hx : x.isNumber = true) (h : |x.value| ≤ 4) : x.IsFinite :=
  isFinite_of_abs_lt hx (lt_of_le_of_lt h f.four_lt_valueAt_top)

namespace Rounds

/-- What is on the grid is not changed. -/
theorem value_eq {p : Int} (h : Rounds (f.valueAt p) z) (hp : |p| ≤ f.top) :
    z.value = f.valueAt p := by
  rw [value, h.nearest.unique (.of_valueAt hp)]

/-- What is rounded from a finite number is that number, up to the sign of a zero. -/
theorem of_value (h : Rounds x.value z) (hx : x.IsFinite) : z.IsFinite ∧ z.value = x.value := by
  have hvalue := h.value_unique (.self hx.1)
  exact ⟨isFinite_of_abs_lt h.isNumber (hvalue ▸ hx.abs_value_lt), hvalue⟩

/-- A multiple of a power of two that a significand holds is not changed. -/
theorem value_eq_zpow {n j : Int} (h : Rounds (n * 2 ^ j) z) (hn : n.natAbs ≤ 2 * f.leading)
    (hj : f.unitExponent ≤ j) (ha : |(n : ℚ) * 2 ^ j| ≤ f.valueAt f.top) :
    z.value = n * 2 ^ j := by
  obtain ⟨p, hp⟩ := f.exists_valueAt_of_multiple (t := (j - f.unitExponent).toNat) hn
  rw [mul_assoc, ← f.zpow_eq_unit hj] at hp
  rw [← hp] at h ha ⊢
  rw [← Format.valueAt_abs] at ha
  exact h.value_eq (f.valueAt_strictMono.le_iff_le.1 ha)

/-- What is not above a finite number in magnitude is rounded to a finite one. -/
theorem isFinite_of_abs_le (h : Rounds a z) (hx : x.IsFinite) (ha : |a| ≤ x.value) :
    z.IsFinite := by
  refine isFinite_of_abs_lt h.isNumber (lt_of_le_of_lt ?_ hx.abs_value_lt)
  obtain ⟨h1, h2⟩ := abs_le.1 ha
  have hle := h.value_le hx.1 h2
  have hge := h.le_value (y := -x) (by simpa using hx.1) (by simpa using h1)
  rw [value_neg] at hge
  exact (abs_le.2 ⟨hge, hle⟩).trans (le_abs_self _)

end Rounds

/-! ## Doubles and midpoints -/

/-- A number is what its significand counts of a power of two. -/
theorem exists_value_eq_zpow (hx : x.isNumber = true) :
    ∃ n j : Int, n.natAbs ≤ 2 * f.leading ∧ f.unitExponent ≤ j ∧ x.value = n * 2 ^ j := by
  cases x with
  | nan => cases hx
  | number s r h =>
    refine ⟨signFactor s * f.significand r, f.scale r + f.unitExponent, ?_, by omega, ?_⟩
    · have := f.significand_lt r
      cases s <;> simp <;> omega
    · rw [value_number, f.units_eq, Format.unit, zpow_add₀ two_ne_zero, zpow_natCast]
      push_cast
      ring

/-- Doubling a finite number changes nothing but its scale. -/
theorem value_add_self (hx : x.IsFinite) (h : 2 * |x.value| ≤ f.valueAt f.top) :
    (x + x).value = 2 * x.value := by
  obtain ⟨n, j, hn, hj, e⟩ := exists_value_eq_zpow hx.1
  have e2 : x.value + x.value = n * 2 ^ (j + 1) := by
    rw [e, zpow_add_one₀ two_ne_zero]; ring
  have hr := rounds_add hx hx
  rw [e2] at hr
  rw [hr.value_eq_zpow hn (by omega) (by rwa [← e2, ← two_mul, abs_mul, abs_two]), ← e2, two_mul]

/-- The doubles of two numbers are numbers, so their rounded sum is between the doubles. -/
theorem value_add_between (hx : x.IsFinite) (hy : y.IsFinite)
    (hx2 : 2 * |x.value| ≤ f.valueAt f.top) (hy2 : 2 * |y.value| ≤ f.valueAt f.top)
    (h : x.value ≤ y.value) : 2 * x.value ≤ (x + y).value ∧ (x + y).value ≤ 2 * y.value := by
  have hsum := rounds_add hx hy
  rw [← value_add_self hx hx2, ← value_add_self hy hy2]
  exact ⟨(rounds_add hx hx).value_le_value hsum (by linarith),
    hsum.value_le_value (rounds_add hy hy) (by linarith)⟩

/-! ## Natural numbers and their halves -/

theorem rounds_ofNat (n : Nat) : Rounds (n : ℚ) (ofNat n : Binary f) := by
  have h : Rounds _ (ofNat n : Binary f) := rounds_nearest false n (0 - f.unitExponent)
  rwa [Format.unit, signFactor_false, mul_assoc, ← zpow_add₀ two_ne_zero, sub_add_cancel, zpow_zero,
    mul_one, Int.cast_one, one_mul] at h

theorem value_ofNat {n : Nat} (hn : n ≤ 4) : (ofNat n : Binary f).value = n := by
  have hn' : (n : ℚ) ≤ 4 := by exact_mod_cast hn
  have h := rounds_ofNat (f := f) n
  have e : ((n : Int) : ℚ) * 2 ^ (0 : Int) = n := by simp
  rw [← e] at h ⊢
  refine h.value_eq_zpow ?_ ?_ ?_
  · have : 4 ≤ 2 * f.leading := by cases f <;> decide
    simpa using hn.trans this
  · cases f <;> decide
  · rw [e, abs_of_nonneg (by positivity)]
    exact hn'.trans f.four_lt_valueAt_top.le

theorem isFinite_ofNat {n : Nat} (hn : n ≤ 4) : (ofNat n : Binary f).IsFinite := by
  refine isFinite_of_abs_le_four (rounds_ofNat n).isNumber ?_
  rw [value_ofNat hn, abs_of_nonneg (by positivity)]
  exact_mod_cast hn

/-- A natural number of at most 53 bits is exact in 64 bits. -/
theorem value_ofNat_double {n : Nat} (hn : n ≤ 2 ^ 53) :
    (ofNat n : Binary64).value = n ∧ (ofNat n : Binary64).IsFinite := by
  have hn' : (n : ℚ) ≤ 2 ^ 53 := by exact_mod_cast hn
  have htop : (2 : ℚ) ^ 53 < Format.double.valueAt Format.double.top := by
    rw [Format.valueAt_top]
    exact pow_lt_pow_right₀ one_lt_two (by decide)
  have e : ((n : Int) : ℚ) * 2 ^ (0 : Int) = n := by simp
  have hvalue : (ofNat n : Binary64).value = n := by
    have h := rounds_ofNat (f := .double) n
    rw [← e] at h ⊢
    refine h.value_eq_zpow hn (by decide) ?_
    rw [e, abs_of_nonneg (by positivity)]
    exact hn'.trans htop.le
  refine ⟨hvalue, isFinite_of_abs_lt (rounds_ofNat n).isNumber ?_⟩
  rw [hvalue, abs_of_nonneg (by positivity)]
  exact hn'.trans_lt htop

/-- A small natural number bounds what is rounded if it bounds the exact magnitude. -/
theorem Rounds.abs_value_le {n : Nat} (h : Rounds a z) (hn : n ≤ 4) (ha : |a| ≤ n) :
    |z.value| ≤ n := by
  obtain ⟨h1, h2⟩ := abs_le.1 ha
  have hfin := isFinite_ofNat (f := f) hn
  have hv := value_ofNat (f := f) hn
  have hup := h.value_le hfin.1 (by rwa [hv])
  have hlow := h.le_value hfin.neg.1 (by rwa [value_neg, hv])
  rw [hv] at hup
  rw [value_neg, hv] at hlow
  exact abs_le.2 ⟨hlow, hup⟩

theorem Rounds.isFinite_of_abs_le_natCast {n : Nat} (h : Rounds a z) (hn : n ≤ 4)
    (ha : |a| ≤ n) : z.IsFinite := by
  have hn' : (n : ℚ) ≤ 4 := by exact_mod_cast hn
  exact isFinite_of_abs_le_four h.isNumber ((h.abs_value_le hn ha).trans hn')

theorem isFinite_zero : (0 : Binary f).IsFinite := isFinite_number.2 f.top_pos.ne

@[simp] theorem value_one : (1 : Binary f).value = 1 := by
  have h := value_ofNat (f := f) (n := 1) (by decide)
  rwa [Nat.cast_one] at h

theorem isFinite_one : (1 : Binary f).IsFinite := isFinite_ofNat (n := 1) (by decide)

/-- Products by one and by zero are not rounded. -/
theorem mul_one_spec (hx : x.IsFinite) : (x * 1).IsFinite ∧ (x * 1).value = x.value := by
  have h := rounds_mul hx isFinite_one
  rw [value_one, mul_one] at h
  exact h.of_value hx

theorem mul_zero_spec (hx : x.IsFinite) : (x * 0).IsFinite ∧ (x * 0).value = 0 := by
  have h := rounds_mul hx isFinite_zero
  rw [value_zero, mul_zero, ← value_zero (f := f)] at h
  rw [← value_zero (f := f)]
  exact h.of_value isFinite_zero

theorem value_half_double : (ofNat 1 / ofNat 2 : Binary64).value = 1 / 2 := by
  have h := rounds_div (isFinite_ofNat (f := .double) (n := 1) (by decide))
    (isFinite_ofNat (n := 2) (by decide)) (by rw [value_ofNat (by decide)]; norm_num)
  rw [value_ofNat (by decide), value_ofNat (by decide)] at h
  have e : ((1 : Nat) : ℚ) / (2 : Nat) = ((1 : Int) : ℚ) * 2 ^ (-1 : Int) := by norm_num
  rw [e] at h
  rw [h.value_eq_zpow (by decide) (by decide), ← e]
  · norm_num
  · rw [← e, abs_of_nonneg (by norm_num)]
    exact le_trans (by norm_num) (Format.four_lt_valueAt_top _).le

theorem value_two : (Scalar.two : Binary f).value = 2 := by
  have h : Rounds _ (Scalar.two : Binary f) :=
    rounds_convert f (isFinite_ofNat (f := .double) (n := 2) (by decide))
  have hnat := rounds_ofNat (f := f) 2
  rw [value_ofNat (by decide)] at h
  have heq := le_antisymm (h.value_le_value hnat le_rfl) (hnat.value_le_value h le_rfl)
  rw [heq, value_ofNat (by decide)]
  rfl

theorem isFinite_two : (Scalar.two : Binary f).IsFinite := by
  refine isFinite_of_abs_le_four ?_ ?_
  · cases f <;> rfl
  · rw [value_two, abs_of_nonneg] <;> norm_num

theorem value_half : (Scalar.half : Binary f).value = 1 / 2 := by
  have hfin : (ofNat 1 / ofNat 2 : Binary64).IsFinite :=
    isFinite_of_abs_le_four (rounds_div (isFinite_ofNat (by decide)) (isFinite_ofNat (by decide))
      (by rw [value_ofNat (by decide)]; norm_num)).isNumber
      (by rw [value_half_double, abs_of_nonneg] <;> norm_num)
  have h : Rounds _ (Scalar.half : Binary f) := rounds_convert f hfin
  have e : (1 : ℚ) / 2 = ((1 : Int) : ℚ) * 2 ^ (-1 : Int) := by norm_num
  rw [value_half_double, e] at h
  rw [h.value_eq_zpow, ← e]
  · have := f.leading_pos
    omega
  · cases f <;> decide
  · rw [← e, abs_of_nonneg (by norm_num)]
    exact le_trans (by norm_num) f.four_lt_valueAt_top.le

theorem isFinite_half : (Scalar.half : Binary f).IsFinite := by
  refine isFinite_of_abs_le_four ?_ ?_
  · cases f <;> rfl
  · rw [value_half, abs_of_nonneg] <;> norm_num

/-- Half the rounded sum of two numbers of magnitude one at most is rounded to between them. -/
theorem half_add_spec (hx : x.isNumber = true) (hy : y.isNumber = true) (hx1 : |x.value| ≤ 1)
    (hy1 : |y.value| ≤ 1) (h : x.value ≤ y.value) :
    ((x + y) * (Scalar.half : Binary f)).isNumber = true ∧
      x.value ≤ ((x + y) * (Scalar.half : Binary f)).value ∧
        ((x + y) * (Scalar.half : Binary f)).value ≤ y.value := by
  have hxf := isFinite_of_abs_le_four hx (by linarith)
  have hyf := isFinite_of_abs_le_four hy (by linarith)
  have htop := f.four_lt_valueAt_top
  have hs := rounds_add hxf hyf
  obtain ⟨hlow, hup⟩ := value_add_between hxf hyf (by linarith) (by linarith) h
  have hsum : |x.value + y.value| ≤ (2 : Nat) := by
    refine (abs_add_le _ _).trans ?_
    norm_num
    linarith
  have hsf := hs.isFinite_of_abs_le_natCast (by decide) hsum
  have hc := rounds_mul hsf isFinite_half
  rw [value_half] at hc
  exact ⟨hc.isNumber, hc.le_value hx (by linarith), hc.value_le hy (by linarith)⟩

end Binary

end HitTest
