import HitTest.Proofs.Binary.Order

/-!
# Roundoff

A rounded result is off by half a step of the grid at most, and a step is small against the numbers
around it. So the error of an operation is at most the *roundoff* of the format times the exact
result, or times the least number with a full significand where the result is below that. Sums and
differences are not rounded there at all.

Neighboring numbers are farther apart than that, and so are their squares: the rounded square is
strictly monotone as long as it does not underflow. At the other end of the grid, what is less than
half a step away from a finite number does not overflow.
-/

namespace HitTest

namespace Format

variable {f : Format} {x : ℚ} {p : Int}

/-- Half the distance from one to the number above it. -/
def roundoff (f : Format) : ℚ := (2 * (f.leading : ℚ))⁻¹

/-- The least number with a full significand. -/
def leastFull (f : Format) : ℚ := f.leading * f.unit

theorem leading_pos_rat (f : Format) : (0 : ℚ) < f.leading := by exact_mod_cast f.leading_pos

theorem roundoff_pos (f : Format) : 0 < f.roundoff :=
  inv_pos.2 (mul_pos two_pos f.leading_pos_rat)

theorem roundoff_le (f : Format) : f.roundoff ≤ 1 / 2 ^ 24 := by
  unfold roundoff
  rw [leading_eq_pow]
  cases f <;> norm_num [fractionBits]

theorem leastFull_pos (f : Format) : 0 < f.leastFull := mul_pos f.leading_pos_rat f.unit_pos

/-- The roundoff is the share of half a step that a full significand of steps is. -/
theorem roundoff_mul_leading (f : Format) (h : ℚ) : f.roundoff * (f.leading * h) = h / 2 := by
  have := f.leading_pos_rat.ne'
  unfold roundoff
  field_simp

/-- A full significand of the steps at a rank is not above the number of that rank, except on the
scale of the least numbers. -/
theorem leading_mul_step_le (f : Format) (r : Nat) :
    (f.leading : ℚ) * (2 ^ f.scale r * f.unit) ≤ max (f.valueAt r) f.leastFull := by
  rcases f.scale_eq_zero_or r with h | h
  · rw [h, pow_zero, one_mul]
    exact le_max_right _ _
  · have hm : (f.leading : ℚ) ≤ f.significand r := by exact_mod_cast h
    refine le_max_of_le_left ?_
    rw [valueAt_natCast, units_eq]
    push_cast
    rw [mul_assoc (f.significand r : ℚ)]
    exact mul_le_mul_of_nonneg_right hm (mul_pos (by positivity) f.unit_pos).le

theorem valueAt_succ_natCast (f : Format) (r : Nat) :
    f.valueAt (r + 1) = f.valueAt r + 2 ^ f.scale r * f.unit := by
  have e := f.valueAt_natCast (r + 1)
  push_cast at e
  rw [e, valueAt_natCast, units_succ]
  push_cast
  ring

/-- Half a step is the roundoff of what is not below the number before it. -/
theorem half_step_le (f : Format) {r : Nat} {y : ℚ} (h : f.valueAt r ≤ y) :
    2 ^ f.scale r * f.unit / 2 ≤ f.roundoff * max y f.leastFull := by
  rw [← f.roundoff_mul_leading]
  exact mul_le_mul_of_nonneg_left
    ((f.leading_mul_step_le r).trans (max_le_max_right _ h)) f.roundoff_pos.le

/-- Neighbors differ by at least the roundoff of the larger one. -/
theorem valueAt_natCast_le (f : Format) (r : Nat) :
    f.valueAt r ≤ (1 - f.roundoff) * f.valueAt (r + 1) := by
  have hstep := f.valueAt_succ_natCast r
  have hpos : 0 < 2 ^ f.scale r * f.unit := mul_pos (by positivity) f.unit_pos
  have hsteps : f.valueAt r = f.significand r * (2 ^ f.scale r * f.unit) := by
    rw [Format.valueAt_natCast, f.units_eq]
    push_cast
    ring
  have hm : (f.significand r : ℚ) + 1 ≤ 2 * f.leading := by
    exact_mod_cast f.significand_lt r
  have hroundoff : f.roundoff * (2 * f.leading) = 1 :=
    inv_mul_cancel₀ (mul_pos two_pos f.leading_pos_rat).ne'
  -- one step is at least the roundoff of all the steps up to the neighbor
  have hshare : f.roundoff * f.valueAt (r + 1) ≤ 2 ^ f.scale r * f.unit := by
    have hle := mul_le_mul_of_nonneg_left hm f.roundoff_pos.le
    rw [hroundoff] at hle
    rw [hstep, hsteps]
    calc f.roundoff * (f.significand r * (2 ^ f.scale r * f.unit) + 2 ^ f.scale r * f.unit)
        = f.roundoff * (f.significand r + 1) * (2 ^ f.scale r * f.unit) := by ring
      _ ≤ 1 * (2 ^ f.scale r * f.unit) := mul_le_mul_of_nonneg_right hle hpos.le
      _ = 2 ^ f.scale r * f.unit := one_mul _
  linarith

namespace Nearest

/-- What is rounded to a rank is off by half a step at most, and the step begins below both numbers:
at the rank itself, or at the rank before it. -/
theorem exists_step {r : Nat} (h : f.Nearest x r) (hr : r < f.top) :
    ∃ q : Nat, |f.valueAt r - x| ≤ 2 ^ f.scale q * f.unit / 2 ∧ f.valueAt q ≤ |x| ∧
      f.valueAt q ≤ f.valueAt r := by
  have hup := (h.upper (by exact_mod_cast hr)).1
  have hlow := (h.lower (by have := f.top_pos; omega)).1
  rcases le_total (f.valueAt r) x with hle | hle
  · refine ⟨r, ?_, hle.trans (le_abs_self x), le_rfl⟩
    rw [midpoint, valueAt_succ_natCast] at hup
    rw [abs_sub_comm, abs_of_nonneg (sub_nonneg.2 hle)]
    linarith
  · rcases Nat.eq_zero_or_pos r with rfl | h0
    · -- half a unit below zero is the mirror image of half a unit above it
      have hmirror := f.midpoint_neg 0
      have hstep := f.valueAt_succ_natCast 0
      simp only [Nat.cast_zero, valueAt_zero, zero_add, neg_zero] at hmirror hstep hle hlow ⊢
      rw [zero_sub] at hmirror hlow
      rw [hmirror, midpoint, valueAt_zero, zero_add, zero_add, hstep] at hlow
      refine ⟨0, ?_, by simp, by simp⟩
      rw [abs_of_nonneg (sub_nonneg.2 hle)]
      linarith
    · obtain ⟨q, rfl⟩ := Nat.exists_eq_succ_of_ne_zero h0.ne'
      have hstep := f.valueAt_succ_natCast q
      have hlt := f.valueAt_lt_succ_natCast q
      rw [Nat.succ_eq_add_one, Nat.cast_add, Nat.cast_one] at *
      rw [add_sub_cancel_right, midpoint] at hlow
      refine ⟨q, ?_, ?_, hlt.le⟩
      · rw [abs_of_nonneg (sub_nonneg.2 hle)]
        linarith
      · exact le_trans (by linarith) (le_abs_self x)

/-- The error of rounding, against the exact number as well as against the rounded one. -/
theorem error_natCast {r : Nat} (h : f.Nearest x r) (hr : r < f.top) :
    |f.valueAt r - x| ≤ f.roundoff * max |x| f.leastFull ∧
      |f.valueAt r - x| ≤ f.roundoff * max |f.valueAt r| f.leastFull := by
  obtain ⟨q, hgap, hx, hrank⟩ := h.exists_step hr
  exact ⟨hgap.trans (f.half_step_le hx),
    hgap.trans (f.half_step_le (hrank.trans (le_abs_self _)))⟩

theorem error (h : f.Nearest x p) (hp : |p| < f.top) :
    |f.valueAt p - x| ≤ f.roundoff * max |x| f.leastFull ∧
      |f.valueAt p - x| ≤ f.roundoff * max |f.valueAt p| f.leastFull := by
  rcases le_total 0 p with h0 | h0
  · lift p to ℕ using h0
    exact h.error_natCast (by simpa using hp)
  · -- below zero the grid is the mirror image
    obtain ⟨r, hr⟩ := Int.eq_ofNat_of_zero_le (show 0 ≤ -p by omega)
    have hneg := h.neg
    rw [hr] at hneg
    rw [← abs_neg, hr, Nat.abs_cast] at hp
    have hk := hneg.error_natCast (by exact_mod_cast hp)
    rwa [← hr, valueAt_neg, abs_neg x, abs_neg (f.valueAt p), ← neg_sub', abs_neg] at hk

end Nearest

end Format

namespace Binary

variable {f : Format} {x y z : Binary f} {a : ℚ}

theorem value_minPositive_eq : (minPositive : Binary f).value = f.leastFull := by
  rw [value_minPositive, Format.leastFull, Format.leading_eq_pow, Format.unit,
    zpow_add₀ two_ne_zero, zpow_natCast]
  push_cast
  rfl

theorem value_epsilon_eq : (epsilon : Binary f).value = 2 * f.roundoff := by
  cases f <;> decide +kernel

/-! ## The error of an operation -/

theorem Rounds.error (h : Rounds a z) (hz : z.IsFinite) :
    |z.value - a| ≤ f.roundoff * Max.max |a| f.leastFull ∧
      |z.value - a| ≤ f.roundoff * Max.max |z.value| f.leastFull := h.nearest.error hz.2

/-- Below the least number with a full significand the numbers are evenly spaced, so a sum is not
rounded there. -/
theorem add_error (hx : x.IsFinite) (hy : y.IsFinite) (h : (x + y).IsFinite) :
    |(x + y).value - (x.value + y.value)| ≤ f.roundoff * |x.value + y.value| := by
  have hround := rounds_add hx hy
  rcases le_or_gt f.leastFull |x.value + y.value| with hbig | hsmall
  · have herror := (hround.error h).1
    rwa [max_eq_left hbig] at herror
  · obtain ⟨n, hn⟩ := (isMultiple_value hx.1).add (isMultiple_value hy.1)
    have hlt : |(n : ℚ)| < f.leading := by
      rw [hn, pow_zero, mul_one, abs_mul, abs_of_pos f.unit_pos, Format.leastFull] at hsmall
      exact lt_of_mul_lt_mul_right hsmall f.unit_pos.le
    have hnat : n.natAbs ≤ 2 * f.leading := by
      have : ((n.natAbs : Nat) : ℚ) < f.leading := by rwa [Nat.cast_natAbs, Int.cast_abs]
      have : n.natAbs < f.leading := by exact_mod_cast this
      omega
    obtain ⟨p, hp⟩ := f.exists_valueAt_of_multiple (t := 0) hnat
    have hexact : (x + y).value = x.value + y.value := by
      have hnear := hround.nearest
      rw [hn, ← hp] at hnear ⊢
      rw [value, hnear.eq_of_valueAt h.2]
    rw [hexact, sub_self, abs_zero]
    exact mul_nonneg f.roundoff_pos.le (abs_nonneg _)

theorem sub_error (hx : x.IsFinite) (hy : y.IsFinite) (h : (x - y).IsFinite) :
    |(x - y).value - (x.value - y.value)| ≤ f.roundoff * |x.value - y.value| := by
  have herror := add_error hx hy.neg h
  rwa [value_neg, ← sub_eq_add_neg] at herror

/-- What is less than half a step of the last numbers away from a finite one does not overflow. -/
theorem Rounds.isFinite_of_near (h : Rounds a z) (hx : x.IsFinite)
    (hnear : |a - x.value| < f.roundoff * f.valueAt f.top / 2) : z.IsFinite := by
  have not_above : ∀ {x z : Binary f} {a : ℚ}, x.IsFinite → Rounds a z →
      a - x.value < f.roundoff * f.valueAt f.top / 2 → z ≠ signedInfinity false := by
    rintro x z a hx h hlt rfl
    obtain ⟨r, hr⟩ := Nat.exists_eq_succ_of_ne_zero f.top_pos.ne'
    have hplace : (signedInfinity false : Binary f).place = r + 1 := by
      rw [place_signedInfinity, signFactor_false, one_mul, hr]
      push_cast
      rfl
    have hmid := (h.nearest.lower (by rw [hplace]; omega)).1
    have hlast : x.value ≤ f.valueAt r := by
      refine f.valueAt_strictMono.monotone ?_
      have := (abs_lt.1 hx.2).2
      omega
    have hstep := f.valueAt_natCast_le r
    rw [hr, Nat.succ_eq_add_one, Nat.cast_add, Nat.cast_one] at hlt
    rw [hplace, add_sub_cancel_right, Format.midpoint] at hmid
    linarith
  by_contra hz
  obtain ⟨s, rfl⟩ := exists_eq_signedInfinity h.isNumber hz
  obtain ⟨hlow, hup⟩ := abs_lt.1 hnear
  cases s with
  | false => exact not_above hx h hup rfl
  | true => exact not_above hx.neg h.neg (by rw [value_neg]; linarith) rfl

/-! ## Squares -/

/-- The lesser one of two numbers is less by at least the roundoff. -/
theorem value_le_of_lt (h0 : 0 ≤ x) (h : x < y) : x.value ≤ (1 - f.roundoff) * y.value := by
  rw [le_iff, place_zero] at h0
  rw [lt_iff] at h
  obtain ⟨r, hr⟩ := Int.eq_ofNat_of_zero_le h0.2.2
  have hy : f.valueAt (r + 1) ≤ y.value := f.valueAt_strictMono.monotone (by omega)
  have hsmall : f.roundoff ≤ 1 := f.roundoff_le.trans (by norm_num)
  calc x.value = f.valueAt r := by rw [value, hr]
    _ ≤ (1 - f.roundoff) * f.valueAt (r + 1) := f.valueAt_natCast_le r
    _ ≤ (1 - f.roundoff) * y.value := mul_le_mul_of_nonneg_left hy (by linarith)

/-- Unless it underflows, the square of a larger number is larger, also after rounding. -/
theorem mul_self_lt_mul_self (h0 : 0 ≤ x) (h : x < y) (hx : (x * x).IsFinite)
    (hmin : minPositive ≤ y * y) : x * x < y * y := by
  have hle := Binary.mul_self_le_mul_self_of_nonneg h0 (Binary.le_of_lt h)
  rw [lt_iff_value hx.1 (isNumber_right hmin)]
  refine lt_of_le_of_ne (value_le_value hle) fun heq => ?_
  have hy : (y * y).IsFinite :=
    isFinite_of_abs_lt (isNumber_right hmin) (heq ▸ hx.abs_value_lt)
  have hroot := value_le_of_lt h0 h
  have hx0 := (nonneg_iff.1 h0).2
  -- both squares are close to the one number that they are rounded to
  have hZ := value_le_value hmin
  rw [value_minPositive_eq, ← heq] at hZ
  have hZ0 := f.leastFull_pos.trans_le hZ
  obtain ⟨-, hxx⟩ := (rounds_mul (isFinite_of_mul hx).1 (isFinite_of_mul hx).1).error hx
  obtain ⟨-, hyy⟩ := (rounds_mul (isFinite_of_mul hy).1 (isFinite_of_mul hy).1).error hy
  rw [← heq] at hyy
  rw [abs_of_pos hZ0, max_eq_left hZ] at hxx hyy
  have hu := f.roundoff_pos
  have hu1 : f.roundoff < 1 := f.roundoff_le.trans_lt (by norm_num)
  have hlow := (abs_le.1 hxx).2
  have hup := (abs_le.1 hyy).1
  generalize (x * x).value = Z at *
  generalize f.roundoff = u at *
  generalize x.value = X at *
  generalize y.value = Y at *
  -- their ratio is not less than that of the ends of the interval of rounding
  have hsq : X * X ≤ (1 - u) ^ 2 * (Y * Y) := by
    calc X * X ≤ ((1 - u) * Y) * ((1 - u) * Y) := mul_self_le_mul_self hx0 hroot
      _ = (1 - u) ^ 2 * (Y * Y) := by ring
  have hYY : Y * Y ≤ (1 + u) * Z := by linarith
  have hXX : (1 - u) * Z ≤ X * X := by linarith
  have hends : (1 - u) * Z ≤ (1 - u) ^ 2 * ((1 + u) * Z) :=
    hXX.trans (hsq.trans (mul_le_mul_of_nonneg_left hYY (sq_nonneg _)))
  have hpos : 0 < (1 - u) * Z * u ^ 2 :=
    mul_pos (mul_pos (sub_pos.2 hu1) hZ0) (pow_pos hu 2)
  linarith

end Binary

end HitTest
