import HitTest.Proofs.Binary.Order
import HitTest.Proofs.Binary.Root
import HitTest.Proofs.Vec3

/-!
# Magnitudes

A finite result has finite operands. In the other direction a bound is needed: a number that is not
above a power of two in magnitude is finite, and so is what is computed from such numbers as long as
the powers do not reach the end of the format: a sum adds one to the exponent, a product adds the
exponents, a root halves them, and a quotient adds what the divisor is short of one.
-/

namespace HitTest

/-- Finite numbers of a format are below two to this power in magnitude. -/
def Format.exponentBound (f : Format) : Nat := 2 ^ (f.exponentBits - 1)

/-- Roots of numbers above zero are not below the reciprocal of two to this power. -/
def Format.rootExponent (f : Format) : Nat := ((-f.unitExponent).toNat + 1) / 2

theorem Format.exponentBound_pos (f : Format) : 0 < f.exponentBound := by cases f <;> decide

theorem Format.unitExponent_neg (f : Format) : f.unitExponent < 0 := by cases f <;> decide

theorem Format.valueAt_top_eq (f : Format) : f.valueAt f.top = 2 ^ f.exponentBound := f.valueAt_top

namespace Binary

variable {f : Format} {x y z : Binary f} {a : ℚ} {j k : Nat}

instance : DecidablePred (IsFinite (f := f)) := fun x =>
  inferInstanceAs (Decidable (x.isNumber = true ∧ |x.place| < f.top))

/-! ## Operands of finite results -/

theorem isFinite_of_add (h : (x + y).IsFinite) : x.IsFinite ∧ y.IsFinite := by
  have hleft : ∀ {x y : Binary f}, (x + y).IsFinite → x.IsFinite := by
    intro x y h
    by_contra hx
    obtain ⟨s, rfl⟩ := exists_eq_signedInfinity (isNumber_of_add h.1).1 hx
    exact hx (signedInfinity_add h.1 ▸ h)
  exact ⟨hleft h, hleft (Binary.add_comm x y ▸ h)⟩

theorem isFinite_of_sub (h : (x - y).IsFinite) : x.IsFinite ∧ y.IsFinite := by
  obtain ⟨hx, hy⟩ := isFinite_of_add (x := x) (y := -y) h
  exact ⟨hx, Binary.neg_neg y ▸ hy.neg⟩

/-- Only a finite number has a multiple by zero. -/
theorem isFinite_of_mul_of_value_eq_zero (h : (x * y).isNumber = true) (hy : y.value = 0) :
    x.IsFinite := by
  obtain ⟨hx, hyn⟩ := isNumber_of_mul h
  by_contra hinf
  obtain ⟨s, rfl⟩ := exists_eq_signedInfinity hx hinf
  cases y with
  | nan => cases hyn
  | number t b hb =>
    obtain rfl : b = 0 := by
      by_contra hb0
      have hpos : (0 : ℚ) < f.units b * f.unit :=
        mul_pos (by exact_mod_cast f.units_pos hb0) f.unit_pos
      rw [value_number] at hy
      rcases mul_eq_zero.1 hy with h0 | h0
      · cases t <;> simp at h0
      · exact hpos.ne' h0
    change ((signedInfinity s).mul (number t 0 hb)).isNumber = true at h
    simp [mul, signedInfinity, isNumber] at h

/-- A quotient by what is not finite is zero, if it is a number. -/
theorem value_div_eq_zero (h : (x / y).isNumber = true) (hy : ¬ y.IsFinite) :
    (x / y).value = 0 := by
  obtain ⟨hx, hyn⟩ := isNumber_of_div h
  obtain ⟨s, rfl⟩ := exists_eq_signedInfinity hyn hy
  cases x with
  | nan => cases hx
  | number t a ha =>
    change ((number t a ha).div (signedInfinity s)).isNumber = true at h
    change ((number t a ha).div (signedInfinity s)).value = 0
    by_cases htop : a = f.top
    · simp [div, signedInfinity, htop, isNumber] at h
    · simp [div, signedInfinity, htop, signedZero, value_number]

/-! ## Bounds -/

/-- A power of two that is not beyond the end of the format is a number. -/
theorem exists_value_pow (hk : k < f.exponentBound) :
    ∃ x : Binary f, x.IsFinite ∧ x.value = 2 ^ k := by
  have h0 : f.unitExponent ≤ (k : Int) := by
    have := f.unitExponent_neg
    omega
  have hlt : (k : Int) < (f.exponentBound : Nat) := by exact_mod_cast hk
  obtain ⟨x, hx, hv⟩ := exists_value_zpow f h0 hlt
  exact ⟨x, hx, by rw [hv, zpow_natCast]⟩

/-- A number that is not above `2 ^ k` in magnitude. -/
structure Within (k : Nat) (x : Binary f) : Prop where
  isNumber : x.isNumber = true
  le : |x.value| ≤ 2 ^ k

namespace Within

theorem mono (h : Within j x) (hjk : j ≤ k) : Within k x :=
  ⟨h.isNumber, h.le.trans (pow_le_pow_right₀ one_le_two hjk)⟩

theorem isFinite (h : Within k x) (hk : k < f.exponentBound) : x.IsFinite := by
  refine isFinite_of_abs_lt h.isNumber (h.le.trans_lt ?_)
  rw [f.valueAt_top_eq]
  exact pow_lt_pow_right₀ one_lt_two hk

protected theorem zero : Within k (0 : Binary f) := ⟨rfl, by simp⟩

protected theorem one : Within k (1 : Binary f) :=
  ⟨isFinite_one.1, by simpa using one_le_pow₀ one_le_two⟩

/-- What is rounded stays below a power of two. -/
theorem of_rounds (h : Rounds a z) (ha : |a| ≤ 2 ^ k) (hk : k < f.exponentBound) : Within k z := by
  obtain ⟨x, hx, hv⟩ := exists_value_pow hk
  obtain ⟨hlow, hup⟩ := abs_le.1 ha
  refine ⟨h.isNumber, abs_le.2 ⟨?_, ?_⟩⟩
  · have := h.le_value hx.neg.1 (by rwa [value_neg, hv])
    rwa [value_neg, hv] at this
  · have := h.value_le hx.1 (by rwa [hv])
    rwa [hv] at this

protected theorem neg (h : Within k x) : Within k (-x) :=
  ⟨by rw [isNumber_neg, h.isNumber], by rw [value_neg, abs_neg]; exact h.le⟩

protected theorem add (hx : Within k x) (hy : Within k y) (hk : k + 1 < f.exponentBound) :
    Within (k + 1) (x + y) := by
  have hlt : k < f.exponentBound := by omega
  refine of_rounds (rounds_add (hx.isFinite hlt) (hy.isFinite hlt)) ?_ hk
  calc |x.value + y.value| ≤ |x.value| + |y.value| := abs_add_le _ _
    _ ≤ 2 ^ k + 2 ^ k := add_le_add hx.le hy.le
    _ = 2 ^ (k + 1) := by ring

protected theorem sub (hx : Within k x) (hy : Within k y) (hk : k + 1 < f.exponentBound) :
    Within (k + 1) (x - y) := hx.add hy.neg hk

protected theorem mul (hx : Within j x) (hy : Within k y) (hk : j + k < f.exponentBound) :
    Within (j + k) (x * y) := by
  refine of_rounds (rounds_mul (hx.isFinite (by omega)) (hy.isFinite (by omega))) ?_ hk
  rw [abs_mul, pow_add]
  exact mul_le_mul hx.le hy.le (abs_nonneg _) (by positivity)

/-- A quotient, by what is at least `2 ^ -j`. -/
protected theorem div (hx : Within k x) (hy : y.IsFinite) (hj : (2 ^ j)⁻¹ ≤ y.value)
    (hk : k + j < f.exponentBound) : Within (k + j) (x / y) := by
  have hpos : 0 < y.value := lt_of_lt_of_le (by positivity) hj
  refine of_rounds (rounds_div (hx.isFinite (by omega)) hy hpos.ne') ?_ hk
  rw [abs_div, abs_of_pos hpos, div_eq_mul_inv, pow_add]
  exact mul_le_mul hx.le ((inv_le_comm₀ (by positivity) hpos).1 hj) (by positivity) (by positivity)

/-- A root. -/
protected theorem sqrt (hx : Within (2 * k) x) (h0 : 0 ≤ x) (hk : 2 * k < f.exponentBound) :
    Within k x.sqrt := by
  have hroot := roundsRoot_sqrt (hx.isFinite hk) h0
  obtain ⟨y, hy, hv⟩ : ∃ y : Binary f, y.IsFinite ∧ y.value = 2 ^ k := exists_value_pow (by omega)
  have hpow : RoundsRoot ((2 : ℚ) ^ k * 2 ^ k) y :=
    .of_rounds (by positivity) (hv ▸ Rounds.self hy.1)
  have hle := hroot.value_le_value hpow (by
    rw [← pow_add, ← two_mul]
    exact (le_abs_self _).trans hx.le)
  exact ⟨hroot.isNumber, by rwa [abs_of_nonneg hroot.value_nonneg, ← hv]⟩

end Within

/-- The root of what is at least `2 ^ -2j` is at least `2 ^ -j`. -/
theorem le_value_sqrt (hx : x.IsFinite) (h0 : 0 ≤ x) (hj : f.unitExponent ≤ -j)
    (h : (2 ^ (2 * j))⁻¹ ≤ x.value) : (2 ^ j)⁻¹ ≤ x.sqrt.value := by
  have hlt : -(j : Int) < (f.exponentBound : Nat) := by
    have := f.exponentBound_pos
    omega
  obtain ⟨y, hy, hv⟩ := exists_value_zpow f hj hlt
  rw [zpow_neg, zpow_natCast] at hv
  have hpow : RoundsRoot (((2 : ℚ) ^ j)⁻¹ * (2 ^ j)⁻¹) y :=
    .of_rounds (by positivity) (hv ▸ Rounds.self hy.1)
  rw [← hv]
  refine hpow.value_le_value (roundsRoot_sqrt hx h0) ?_
  rwa [← mul_inv, ← pow_add, ← two_mul]

/-- A root that is not zero is one of at least one unit. -/
theorem inv_two_pow_le_sqrt (hx : x.IsFinite) (h0 : 0 ≤ x) (h : 0 < x.sqrt) :
    (2 ^ f.rootExponent)⁻¹ ≤ x.sqrt.value := by
  have hpos : 0 < x.value := by
    refine lt_of_le_of_ne (nonneg_iff.1 h0).2 fun hzero => ?_
    have hroot : RoundsRoot (0 * 0) (0 : Binary f) :=
      .of_rounds le_rfl (by simpa using Rounds.self (isNumber_zero (f := f)))
    have hle := (roundsRoot_sqrt hx h0).value_le_value hroot (by rw [← hzero, mul_zero])
    rw [value_zero] at hle
    exact absurd (pos_iff.1 h).2 (not_lt.2 hle)
  have hunit := (isMultiple_value hx.1).le_of_pos hpos
  rw [pow_zero, one_mul, Format.unit] at hunit
  refine le_value_sqrt hx h0 (by cases f <;> decide) (le_trans ?_ hunit)
  rw [← zpow_natCast, ← zpow_neg]
  exact zpow_le_zpow_right₀ one_le_two (by cases f <;> decide)

end Binary

namespace Vec3

open Binary

variable {f : Format} {a b : Vec3 (Binary f)} {s : Binary f} {j k : Nat}

theorem isFinite_of_dot (h : (a.dot b).IsFinite) : a.All IsFinite ∧ b.All IsFinite := by
  obtain ⟨hxy, hz⟩ := isFinite_of_add h
  obtain ⟨hx, hy⟩ := isFinite_of_add hxy
  exact ⟨⟨(isFinite_of_mul hx).1, (isFinite_of_mul hy).1, (isFinite_of_mul hz).1⟩,
    (isFinite_of_mul hx).2, (isFinite_of_mul hy).2, (isFinite_of_mul hz).2⟩

theorem isFinite_of_cross (h : (a.cross b).All IsFinite) : a.All IsFinite ∧ b.All IsFinite := by
  obtain ⟨hx, hy, -⟩ := h
  obtain ⟨hyz, hzy⟩ := isFinite_of_sub hx
  obtain ⟨hzx, hxz⟩ := isFinite_of_sub hy
  exact ⟨⟨(isFinite_of_mul hxz).1, (isFinite_of_mul hyz).1, (isFinite_of_mul hzy).1⟩,
    (isFinite_of_mul hzx).2, (isFinite_of_mul hzy).2, (isFinite_of_mul hyz).2⟩

theorem All.within_mono (h : a.All (Within j)) (hjk : j ≤ k) : a.All (Within k) :=
  h.mono fun _ hx => hx.mono hjk

theorem within_sub (ha : a.All (Within k)) (hb : b.All (Within k)) (hk : k + 1 < f.exponentBound) :
    (a - b).All (Within (k + 1)) :=
  ⟨ha.1.sub hb.1 hk, ha.2.1.sub hb.2.1 hk, ha.2.2.sub hb.2.2 hk⟩

theorem within_add (ha : a.All (Within k)) (hb : b.All (Within k)) (hk : k + 1 < f.exponentBound) :
    (a + b).All (Within (k + 1)) :=
  ⟨ha.1.add hb.1 hk, ha.2.1.add hb.2.1 hk, ha.2.2.add hb.2.2 hk⟩

theorem within_mul (ha : a.All (Within j)) (hs : Within k s) (hk : j + k < f.exponentBound) :
    (a * s).All (Within (j + k)) := ⟨ha.1.mul hs hk, ha.2.1.mul hs hk, ha.2.2.mul hs hk⟩

theorem within_dot (ha : a.All (Within j)) (hb : b.All (Within k))
    (hk : j + k + 2 < f.exponentBound) : Within (j + k + 2) (a.dot b) :=
  ((ha.1.mul hb.1 (by omega)).add (ha.2.1.mul hb.2.1 (by omega)) (by omega)).add
    ((ha.2.2.mul hb.2.2 (by omega)).mono (by omega)) hk

theorem within_cross (ha : a.All (Within j)) (hb : b.All (Within k))
    (hk : j + k + 1 < f.exponentBound) : (a.cross b).All (Within (j + k + 1)) :=
  ⟨(ha.2.1.mul hb.2.2 (by omega)).sub (ha.2.2.mul hb.2.1 (by omega)) hk,
    (ha.2.2.mul hb.1 (by omega)).sub (ha.1.mul hb.2.2 (by omega)) hk,
    (ha.1.mul hb.2.1 (by omega)).sub (ha.2.1.mul hb.1 (by omega)) hk⟩

end Vec3

end HitTest
