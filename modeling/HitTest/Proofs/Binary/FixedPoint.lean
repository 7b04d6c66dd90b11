import HitTest.Proofs.Binary.Multiple
import HitTest.Proofs.Binary.Scaling

/-!
# Fixed-point numbers

A number between two exponents is a whole multiple of one power of two and not above another one in
magnitude. Sums keep the lower exponent, products add both, and what is rounded stays on the grid it
is on. A quotient or root that is not zero has a least magnitude, hence is on a grid that is finer
than that by the digits of a significand. As long as the exponents stay inside of the format,
nothing overflows, and nothing underflows because only zero is below the grid.
-/

namespace HitTest

variable {lo lo' hi hi' i j k : ℤ}

/-! ## The grid -/

/-- Whole multiples of a power of two. -/
def OnGrid (lo : ℤ) (a : ℚ) : Prop := ∃ n : ℤ, a = n * 2 ^ lo

namespace OnGrid

variable {a b : ℚ}

protected theorem zero : OnGrid lo 0 := ⟨0, by simp⟩

theorem mono (h : OnGrid j a) (hij : i ≤ j) : OnGrid i a := by
  obtain ⟨n, rfl⟩ := h
  refine ⟨n * 2 ^ (j - i).toNat, ?_⟩
  push_cast
  rw [mul_assoc, ← zpow_natCast, Int.toNat_of_nonneg (sub_nonneg.2 hij),
    ← zpow_add₀ two_ne_zero, sub_add_cancel]

protected theorem neg (h : OnGrid lo a) : OnGrid lo (-a) := by
  obtain ⟨n, rfl⟩ := h
  exact ⟨-n, by push_cast; ring⟩

protected theorem add (ha : OnGrid lo a) (hb : OnGrid lo b) : OnGrid lo (a + b) := by
  obtain ⟨n, rfl⟩ := ha
  obtain ⟨m, rfl⟩ := hb
  exact ⟨n + m, by push_cast; ring⟩

protected theorem mul (ha : OnGrid i a) (hb : OnGrid j b) : OnGrid (i + j) (a * b) := by
  obtain ⟨n, rfl⟩ := ha
  obtain ⟨m, rfl⟩ := hb
  exact ⟨n * m, by rw [zpow_add₀ two_ne_zero]; push_cast; ring⟩

/-- What is not zero is at least one step. -/
theorem le_abs (h : OnGrid lo a) (h0 : a ≠ 0) : 2 ^ lo ≤ |a| := by
  obtain ⟨n, rfl⟩ := h
  have hn : (1 : ℚ) ≤ |(n : ℚ)| := by
    exact_mod_cast Int.one_le_abs fun e => h0 (by rw [e]; simp)
  rw [abs_mul, abs_of_pos (show (0 : ℚ) < 2 ^ lo by positivity)]
  exact le_mul_of_one_le_left (by positivity) hn

end OnGrid

theorem Format.fractionBits_add_unitExponent (f : Format) :
    f.fractionBits + f.unitExponent = 2 - (f.exponentBound : ℤ) := by cases f <;> rfl

/-- Two exponents are inside of a format: powers of two between them neither count as zero nor
overflow. -/
structure Format.Spans (f : Format) (lo hi : ℤ) : Prop where
  above : 2 - f.exponentBound < lo
  le : lo ≤ hi
  below : hi < f.exponentBound

/-- The exponents in between are inside of the format. -/
theorem Format.Spans.single {f : Format} (h : f.Spans lo hi) (hlo : lo ≤ k) (hhi : k ≤ hi) :
    f.Spans k k := ⟨h.above.trans_le hlo, le_rfl, hhi.trans_lt h.below⟩

namespace Binary

variable {f : Format} {x y z : Binary f} {a : ℚ}

/-! ## Rounding between powers of two -/

theorem exists_value_two_zpow (h : f.Spans k k) : ∃ y : Binary f, y.IsFinite ∧ y.value = 2 ^ k := by
  have hunit := f.fractionBits_add_unitExponent
  have hlo := h.above
  exact exists_value_zpow f (by omega) h.below

theorem value_ofNat_two_pow {n : ℕ} (hn : n < f.exponentBound) :
    (ofNat (2 ^ n) : Binary f).value = 2 ^ n := by
  have h := rounds_ofNat (f := f) (2 ^ n)
  have e : ((2 ^ n : ℕ) : ℚ) = (1 : ℤ) * 2 ^ (n : ℤ) := by norm_num
  rw [e] at h
  have hunit := f.unitExponent_neg
  rw [h.value_eq_zpow (by have := f.leading_pos; omega) (by omega) ?_, Int.cast_one, one_mul,
    zpow_natCast]
  rw [f.valueAt_top_eq, Int.cast_one, one_mul, zpow_natCast, abs_of_pos (by positivity)]
  exact pow_le_pow_right₀ one_le_two hn.le

theorem Rounds.abs_le_zpow (h : Rounds a z) (hk : f.Spans k k) (ha : |a| ≤ 2 ^ k) :
    |z.value| ≤ 2 ^ k := by
  obtain ⟨y, hy, hv⟩ := exists_value_two_zpow hk
  rw [← hv] at ha ⊢
  have hup := h.value_le hy.1 (abs_le.1 ha).2
  have hlow := h.neg.value_le hy.1 (neg_le.1 (abs_le.1 ha).1)
  rw [value_neg] at hlow
  exact abs_le.2 ⟨neg_le.1 hlow, hup⟩

theorem Rounds.isFinite_of_abs_le_zpow (h : Rounds a z) (hk : f.Spans k k) (ha : |a| ≤ 2 ^ k) :
    z.IsFinite := by
  refine isFinite_of_abs_lt h.isNumber ((h.abs_le_zpow hk ha).trans_lt ?_)
  rw [f.valueAt_top_eq, ← zpow_natCast]
  exact zpow_lt_zpow_right₀ one_lt_two hk.below

theorem Rounds.zpow_le_abs (h : Rounds a z) (hk : f.Spans k k) (ha : 2 ^ k ≤ |a|) :
    2 ^ k ≤ |z.value| := by
  obtain ⟨y, hy, hv⟩ := exists_value_two_zpow hk
  rw [← hv] at ha ⊢
  rcases le_abs.1 ha with ha | ha
  · exact le_abs.2 (.inl (h.le_value hy.1 ha))
  · have hneg := h.neg.le_value hy.1 ha
    rw [value_neg] at hneg
    exact le_abs.2 (.inr hneg)

theorem Rounds.onGrid (h : Rounds a z) (hz : z.IsFinite) (hlo : 2 - f.exponentBound < lo)
    (ha : OnGrid lo a) : OnGrid lo z.value := by
  have hunit := f.fractionBits_add_unitExponent
  have hstep := f.zpow_eq_unit (j := lo) (by omega)
  obtain ⟨n, rfl⟩ := ha
  obtain ⟨m, hm⟩ := h.nearest.isMultiple hz.2 ⟨n, by rw [hstep, mul_assoc]⟩
  exact ⟨m, by rw [value, hm, hstep, mul_assoc]⟩

theorem not_abs_le_minPositive (hx : x.isNumber = true) (hk : 2 - f.exponentBound < k)
    (h : 2 ^ k ≤ |x.value|) : ¬ x.abs ≤ minPositive := by
  rw [le_iff_value (by simpa using hx) rfl, value_abs, value_minPositive, not_le,
    f.fractionBits_add_unitExponent]
  exact (zpow_lt_zpow_right₀ one_lt_two hk).trans_le h

/-- A number is on the grid that is finer than its magnitude by the digits of a significand. -/
theorem onGrid_of_zpow_le_abs (hx : x.isNumber = true) (h : 2 ^ k ≤ |x.value|) :
    OnGrid (k - f.fractionBits - 1) x.value := by
  obtain ⟨n, j, hn, -, e⟩ := exists_value_eq_zpow hx
  have hdigits : |(n : ℚ)| ≤ 2 ^ ((f.fractionBits : ℤ) + 1) := by
    rw [f.leading_eq_pow, ← pow_succ'] at hn
    rw [← Int.cast_abs, Int.abs_eq_natAbs, Int.cast_natCast]
    exact_mod_cast hn
  have hle : (2 : ℚ) ^ k ≤ 2 ^ ((f.fractionBits : ℤ) + 1 + j) :=
    calc (2 : ℚ) ^ k ≤ |(n : ℚ)| * 2 ^ j := by
          rwa [e, abs_mul, abs_of_pos (show (0 : ℚ) < 2 ^ j by positivity)] at h
      _ ≤ 2 ^ ((f.fractionBits : ℤ) + 1) * 2 ^ j :=
          mul_le_mul_of_nonneg_right hdigits (by positivity)
      _ = 2 ^ ((f.fractionBits : ℤ) + 1 + j) := (zpow_add₀ two_ne_zero _ _).symm
  have hexp := (zpow_le_zpow_iff_right₀ (one_lt_two : (1 : ℚ) < 2)).1 hle
  exact OnGrid.mono ⟨n, e⟩ (by omega)

/-! ## Numbers between two exponents -/

/-- A finite number that is a whole multiple of `2 ^ lo` and not above `2 ^ hi` in magnitude. -/
structure Fixed (lo hi : ℤ) (x : Binary f) : Prop where
  isFinite : x.IsFinite
  onGrid : OnGrid lo x.value
  le : |x.value| ≤ 2 ^ hi

namespace Fixed

theorem mono (h : Fixed lo hi x) (hlo : lo' ≤ lo) (hhi : hi ≤ hi') : Fixed lo' hi' x where
  isFinite := h.isFinite
  onGrid := h.onGrid.mono hlo
  le := h.le.trans (zpow_le_zpow_right₀ one_le_two hhi)

protected theorem ofNat {n : ℕ} (hn : n ≤ 4) : Fixed 0 2 (ofNat n : Binary f) where
  isFinite := isFinite_ofNat hn
  onGrid := ⟨n, by rw [value_ofNat hn]; simp⟩
  le := by
    rw [value_ofNat hn, Nat.abs_cast]
    norm_num
    exact_mod_cast hn

protected theorem one : Fixed 0 0 (1 : Binary f) where
  isFinite := isFinite_one
  onGrid := ⟨1, by simp⟩
  le := by simp

/-- What is scaled is between the exponents that are moved by as much. -/
theorem scaled (h : Fixed lo hi x) (hs : Scaled k x y) : Fixed (lo + k) (hi + k) y := by
  obtain ⟨hfin, ⟨n, hn⟩, hle⟩ := h
  cases hs with
  | finite _ hy e =>
    have hpow : (0 : ℚ) < 2 ^ k := by positivity
    refine ⟨hy, ⟨n, ?_⟩, ?_⟩
    · rw [e, hn, zpow_add₀ two_ne_zero]
      ring
    · rw [e, abs_mul, abs_of_pos hpow, zpow_add₀ two_ne_zero, mul_comm]
      exact mul_le_mul_of_nonneg_right hle hpow.le
  | same hinf => exact absurd hfin hinf

/-- Only zero is below the grid. -/
theorem isClear (h : Fixed lo hi x) (hlo : 2 - f.exponentBound < lo) : IsClear x :=
  fun hle => by_contra fun h0 => not_abs_le_minPositive h.isFinite.1 hlo (h.onGrid.le_abs h0) hle

/-- What is rounded to a number inside of the format stays between the exponents. -/
theorem of_rounds (h : Rounds a z) (hf : f.Spans lo hi) (ha : OnGrid lo a) (hle : |a| ≤ 2 ^ hi) :
    Fixed lo hi z := by
  have hk := hf.single hf.le le_rfl
  have hfin := h.isFinite_of_abs_le_zpow hk hle
  exact ⟨hfin, h.onGrid hfin hf.above ha, h.abs_le_zpow hk hle⟩

protected theorem neg (h : Fixed lo hi x) : Fixed lo hi (-x) where
  isFinite := h.isFinite.neg
  onGrid := by
    rw [value_neg]
    exact h.onGrid.neg
  le := by
    rw [value_neg, abs_neg]
    exact h.le

protected theorem add (hx : Fixed lo hi x) (hy : Fixed lo hi y) (hf : f.Spans lo (hi + 1)) :
    Fixed lo (hi + 1) (x + y) := by
  refine of_rounds (rounds_add hx.isFinite hy.isFinite) hf (hx.onGrid.add hy.onGrid) ?_
  calc |x.value + y.value| ≤ |x.value| + |y.value| := abs_add_le _ _
    _ ≤ 2 ^ hi + 2 ^ hi := add_le_add hx.le hy.le
    _ = 2 ^ (hi + 1) := by rw [zpow_add_one₀ two_ne_zero, mul_two]

theorem addFits (h : Fixed lo hi (x + y)) : AddFits x y := fun _ _ => h.isFinite

protected theorem sub (hx : Fixed lo hi x) (hy : Fixed lo hi y) (hf : f.Spans lo (hi + 1)) :
    Fixed lo (hi + 1) (x - y) := hx.add hy.neg hf

protected theorem mul (hx : Fixed lo hi x) (hy : Fixed lo' hi' y)
    (hf : f.Spans (lo + lo') (hi + hi')) : Fixed (lo + lo') (hi + hi') (x * y) := by
  refine of_rounds (rounds_mul hx.isFinite hy.isFinite) hf (hx.onGrid.mul hy.onGrid) ?_
  rw [abs_mul, zpow_add₀ two_ne_zero]
  exact mul_le_mul hx.le hy.le (abs_nonneg _) (by positivity)

theorem mulFits (hx : Fixed lo hi x) (hy : Fixed lo' hi' y) (hf : f.Spans (lo + lo') (hi + hi')) :
    MulFits x y := by
  intro hxf hyf
  refine ⟨(hx.mul hy hf).isFinite, fun hx0 hy0 => ?_⟩
  have h := rounds_mul hxf hyf
  exact not_abs_le_minPositive h.isNumber hf.above (h.zpow_le_abs (hf.single le_rfl hf.le)
    ((hx.onGrid.mul hy.onGrid).le_abs (mul_ne_zero hx0 hy0)))

/-- A quotient is between the extremes. -/
theorem quotient_bounds (hx : Fixed lo hi x) (hy : Fixed lo' hi' y) (hy0 : y.value ≠ 0) :
    |x.value / y.value| ≤ 2 ^ (hi - lo') ∧
      (x.value ≠ 0 → 2 ^ (lo - hi') ≤ |x.value / y.value|) := by
  have hpos : 0 < |y.value| := abs_pos.2 hy0
  rw [abs_div, zpow_sub₀ two_ne_zero, zpow_sub₀ two_ne_zero]
  exact ⟨div_le_div₀ (by positivity) hx.le (by positivity) (hy.onGrid.le_abs hy0),
    fun hx0 => div_le_div₀ (abs_nonneg _) (hx.onGrid.le_abs hx0) hpos hy.le⟩

theorem divFits (hx : Fixed lo hi x) (hy : Fixed lo' hi' y) (hy0 : y.value ≠ 0)
    (hf : f.Spans (lo - hi') (hi - lo')) : DivFits x y := by
  intro hxf hyf
  have h := rounds_div hxf hyf hy0
  obtain ⟨hup, hlow⟩ := hx.quotient_bounds hy hy0
  exact ⟨h.isFinite_of_abs_le_zpow (hf.single hf.le le_rfl) hup, fun hx0 =>
    not_abs_le_minPositive h.isNumber hf.above
      (h.zpow_le_abs (hf.single le_rfl hf.le) (hlow hx0))⟩

/-- A quotient has the digits of a significand below its least magnitude. -/
protected theorem div (hx : Fixed lo hi x) (hy : Fixed lo' hi' y) (hy0 : y.value ≠ 0)
    (hf : f.Spans (lo - hi') (hi - lo')) :
    Fixed (lo - hi' - f.fractionBits - 1) (hi - lo') (x / y) := by
  have h := rounds_div hx.isFinite hy.isFinite hy0
  obtain ⟨hup, hlow⟩ := hx.quotient_bounds hy hy0
  have hk := hf.single hf.le le_rfl
  refine ⟨h.isFinite_of_abs_le_zpow hk hup, ?_, h.abs_le_zpow hk hup⟩
  by_cases hx0 : x.value = 0
  · rw [hx0, zero_div] at h
    rw [h.value_eq_zero]
    exact .zero
  · exact onGrid_of_zpow_le_abs h.isNumber (h.zpow_le_abs (hf.single le_rfl hf.le) (hlow hx0))

/-- So has a root. -/
protected theorem sqrt (hx : Fixed (lo + lo) (hi + hi) x) (h0 : 0 ≤ x) (hf : f.Spans lo hi) :
    Fixed (lo - f.fractionBits - 1) hi x.sqrt := by
  have hroot := roundsRoot_sqrt hx.isFinite h0
  have hpow : ∀ {k : ℤ}, f.Spans k k → ∃ y : Binary f, y.IsFinite ∧ y.value = 2 ^ k ∧
      RoundsRoot (2 ^ (k + k)) y := by
    intro k hk
    obtain ⟨y, hy, hv⟩ := exists_value_two_zpow hk
    refine ⟨y, hy, hv, ?_⟩
    rw [zpow_add₀ two_ne_zero]
    exact .of_rounds (by positivity) (hv ▸ Rounds.self hy.1)
  obtain ⟨y, hy, hv, hyroot⟩ := hpow (hf.single hf.le le_rfl)
  have hle : |x.sqrt.value| ≤ 2 ^ hi := by
    rw [abs_of_nonneg hroot.value_nonneg, ← hv]
    exact hroot.value_le_value hyroot ((le_abs_self _).trans hx.le)
  refine ⟨(sqrt_spec hx.isFinite h0).1, ?_, hle⟩
  by_cases hx0 : x.value = 0
  · rw [sqrt_of_value_eq_zero hx.isFinite.1 hx0, hx0]
    exact .zero
  · obtain ⟨w, -, hw, hwroot⟩ := hpow (hf.single le_rfl hf.le)
    refine onGrid_of_zpow_le_abs hroot.isNumber ?_
    rw [abs_of_nonneg hroot.value_nonneg, ← hw]
    refine hwroot.value_le_value hroot ((hx.onGrid.le_abs hx0).trans ?_)
    rw [abs_of_nonneg (nonneg_iff.1 h0).2]

end Fixed

end Binary

end HitTest
