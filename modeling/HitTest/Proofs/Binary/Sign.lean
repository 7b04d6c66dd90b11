import HitTest.Proofs.Binary.Exactness

/-!
# Signs

Rounding does not change a sign, and neither do infinities: differences from a finite number have
the sign that the order says, and products and reciprocals have the sign of the exact ones, or are
not a number.
-/

namespace HitTest

namespace Binary

variable {f : Format} {x y c : Binary f}

/-! ## Comparison with zero -/

theorem nonneg_iff : 0 ≤ x ↔ x.isNumber = true ∧ 0 ≤ x.value := by
  by_cases h : x.isNumber = true
  · rw [le_iff_value rfl h, value_zero]; simp [h]
  · rw [le_iff]; simp [h]

theorem nonpos_iff : x ≤ 0 ↔ x.isNumber = true ∧ x.value ≤ 0 := by
  by_cases h : x.isNumber = true
  · rw [le_iff_value h rfl, value_zero]; simp [h]
  · rw [le_iff]; simp [h]

theorem pos_iff : 0 < x ↔ x.isNumber = true ∧ 0 < x.value := by
  by_cases h : x.isNumber = true
  · rw [lt_iff_value rfl h, value_zero]; simp [h]
  · rw [lt_iff]; simp [h]

theorem neg_iff : x < 0 ↔ x.isNumber = true ∧ x.value < 0 := by
  by_cases h : x.isNumber = true
  · rw [lt_iff_value h rfl, value_zero]; simp [h]
  · rw [lt_iff]; simp [h]

theorem max_nan (x : Binary f) : Max.max x nan = x := by cases x <;> rfl

theorem min_nan (x : Binary f) : Min.min x nan = x := by cases x <;> rfl

theorem max_nonpos (hx : x ≤ 0) (hc : ¬ 0 < c) : Max.max x c ≤ 0 := by
  rw [nonpos_iff] at hx ⊢
  cases hn : c.isNumber with
  | false =>
    obtain rfl := eq_nan hn
    rwa [max_nan]
  | true =>
    rw [value_max hx.1 hn]
    exact ⟨isNumber_max hx.1 hn, max_le hx.2 (not_lt.1 fun h => hc (pos_iff.2 ⟨hn, h⟩))⟩

theorem min_nonneg (hx : 0 ≤ x) (hc : ¬ c < 0) : 0 ≤ Min.min x c := by
  rw [nonneg_iff] at hx ⊢
  cases hn : c.isNumber with
  | false =>
    obtain rfl := eq_nan hn
    rwa [min_nan]
  | true =>
    rw [value_min hx.1 hn]
    exact ⟨isNumber_min hx.1 hn, le_min hx.2 (not_lt.1 fun h => hc (neg_iff.2 ⟨hn, h⟩))⟩

theorem max_nonneg (hx : 0 ≤ x) (c : Binary f) : 0 ≤ Max.max x c := by
  cases hn : c.isNumber with
  | false =>
    obtain rfl := eq_nan hn
    rwa [max_nan]
  | true =>
    rw [nonneg_iff] at hx ⊢
    rw [value_max hx.1 hn]
    exact ⟨isNumber_max hx.1 hn, le_max_of_le_left hx.2⟩

theorem min_neg (x : Binary f) (hc : c < 0) : Min.min x c < 0 := by
  cases hn : x.isNumber with
  | false =>
    obtain rfl := eq_nan hn
    cases c <;> exact hc
  | true =>
    rw [neg_iff] at hc ⊢
    rw [value_min hn hc.1]
    exact ⟨isNumber_min hn hc.1, min_lt_of_right_lt hc.2⟩

theorem lt_of_neg_of_nonneg (hx : x < 0) (hy : 0 ≤ y) : x < y := by
  rw [neg_iff] at hx
  rw [nonneg_iff] at hy
  rw [lt_iff_value hx.1 hy.1]
  exact hx.2.trans_le hy.2

/-! ## Differences and products -/

theorem signedInfinity_sub (s : Bool) (hy : y.IsFinite) :
    signedInfinity s - y = signedInfinity s := by
  have hny := hy.neg
  change (signedInfinity s).add (-y) = _
  generalize -y = z at hny
  cases z with
  | nan => cases hny.1
  | number t b hb => simp [add, signedInfinity, isFinite_number.1 hny]

theorem signedInfinity_mul (s t : Bool) {b : Nat} {hb : b ≤ f.top} (h : b ≠ 0) :
    signedInfinity s * number t b hb = signedInfinity (s != t) := by
  change (signedInfinity s).mul (number t b hb) = _
  simp [mul, signedInfinity, f.top_pos.ne', h]

/-- A difference from a finite number has the sign that the order says. -/
theorem sub_signs (hx : x.isNumber = true) (hy : y.IsFinite) :
    (x - y).isNumber = true ∧ (x.value ≤ y.value → (x - y).value ≤ 0) ∧
      (y.value ≤ x.value → 0 ≤ (x - y).value) := by
  by_cases hfin : x.IsFinite
  · have h := rounds_sub hfin hy
    refine ⟨h.isNumber, ?_, ?_⟩
    · intro hle
      exact h.value_nonpos (by linarith)
    · intro hle
      exact h.value_nonneg (by linarith)
  · -- an infinity stays as it is, and is beyond every finite number
    obtain ⟨s, rfl⟩ := exists_eq_signedInfinity hx hfin
    obtain ⟨hy1, hy2⟩ := abs_lt.1 hy.abs_value_lt
    have htop := f.four_lt_valueAt_top
    rw [signedInfinity_sub s hy, value_signedInfinity]
    refine ⟨rfl, ?_, ?_⟩
    · intro hle
      cases s with
      | false => norm_num at hle; linarith
      | true => norm_num; linarith
    · intro hle
      cases s with
      | false => norm_num; linarith
      | true => norm_num at hle; linarith

/-- A product with a finite number that is not zero has the sign of the exact product. -/
theorem mul_signs (hx : x.isNumber = true) (hy : y.IsFinite) (h0 : y.value ≠ 0) :
    (x * y).isNumber = true ∧ (x.value * y.value ≤ 0 → (x * y).value ≤ 0) ∧
      (0 ≤ x.value * y.value → 0 ≤ (x * y).value) := by
  by_cases hfin : x.IsFinite
  · have h := rounds_mul hfin hy
    exact ⟨h.isNumber, h.value_nonpos, h.value_nonneg⟩
  · obtain ⟨s, rfl⟩ := exists_eq_signedInfinity hx hfin
    cases y with
    | nan => cases hy.1
    | number t b hb =>
      have hb0 : b ≠ 0 := by
        rintro rfl
        exact h0 (by simp [value_number])
      have hv : 0 < f.valueAt f.top := by linarith [f.four_lt_valueAt_top]
      have hw : 0 < f.units b * f.unit := mul_pos (by exact_mod_cast f.units_pos hb0) f.unit_pos
      -- both the rounded and the exact product have the product of the signs as a factor
      have e : (signFactor s * f.valueAt f.top) * (signFactor t * (f.units b * f.unit)) =
          signFactor (s != t) * (f.valueAt f.top * (f.units b * f.unit)) := by
        rw [signFactor_bne]
        push_cast
        ring
      rw [signedInfinity_mul s t hb0, value_signedInfinity, value_signedInfinity, value_number, e]
      refine ⟨rfl, ?_, ?_⟩
      · intro h
        exact mul_nonpos_of_nonpos_of_nonneg (nonpos_of_mul_nonpos_left h (mul_pos hv hw)) hv.le
      · intro h
        exact mul_nonneg (nonneg_of_mul_nonneg_left h (mul_pos hv hw)) hv.le

/-- A product of numbers that are not below zero is not below zero. -/
theorem not_mul_neg (hx : 0 ≤ x) (hy : 0 ≤ y) : ¬ x * y < 0 := by
  by_cases hfin : x.IsFinite ∧ y.IsFinite
  · have h := rounds_mul hfin.1 hfin.2
    rw [neg_iff, not_and, not_lt]
    exact fun _ => h.value_nonneg (mul_nonneg (nonneg_iff.1 hx).2 (nonneg_iff.1 hy).2)
  · rw [le_iff] at hx hy
    cases x with
    | nan => cases hx.2.1
    | number s a ha =>
      cases y with
      | nan => cases hy.2.1
      | number t b hb =>
        change ¬ (number s a ha).mul (number t b hb) < 0
        rw [isFinite_number, isFinite_number, ← not_or, not_not] at hfin
        rw [lt_iff, mul, if_pos hfin]
        split
        · simp [isNumber]
        · -- neither factor is zero, so neither has the sign of numbers below zero
          rename_i h0
          have positive : ∀ {u : Bool} {c : Nat} {hc : c ≤ f.top}, c ≠ 0 →
              (0 : Binary f).place ≤ (number u c hc).place → u = false := by
            rintro (_ | _) c hc h0 h
            · rfl
            · rw [place_zero] at h
              simp only [place] at h
              omega
          obtain rfl := positive (fun h => h0 (.inl h)) hx.2.2
          obtain rfl := positive (fun h => h0 (.inr h)) hy.2.2
          rw [place_zero]
          simp [signedInfinity, place]

/-! ## Reciprocals -/

/-- Powers of two from the least positive number on are numbers. -/
theorem exists_value_zpow (f : Format) {j : Int} (h1 : f.unitExponent ≤ j)
    (h2 : j < (2 ^ (f.exponentBits - 1) : Nat)) : ∃ x : Binary f, x.IsFinite ∧ x.value = 2 ^ j := by
  have hlt : |((1 : Int) : ℚ) * 2 ^ j| < f.valueAt f.top := by
    rw [Int.cast_one, one_mul, abs_of_pos (by positivity), Format.valueAt_top, ← zpow_natCast]
    exact zpow_lt_zpow_right₀ one_lt_two h2
  have h : Rounds (((1 : Int) : ℚ) * 2 ^ j) (nearest false 1 (j - f.unitExponent) : Binary f) := by
    have := rounds_nearest (f := f) false 1 (j - f.unitExponent)
    rwa [signFactor_false, Int.cast_one, one_mul, Format.unit, mul_assoc,
      ← zpow_add₀ two_ne_zero, sub_add_cancel, Nat.cast_one] at this
  have e := h.value_eq_zpow (by have := f.leading_pos; omega) h1 hlt.le
  exact ⟨_, isFinite_of_abs_lt h.isNumber (e ▸ hlt), by rw [e]; simp⟩

/-- Every number of units up to two full significands is a number, so what is at least as much is
not rounded below it. -/
theorem Rounds.units_le_value {a : ℚ} {n : Nat} (h : Rounds a x) (hn : n ≤ 2 * f.leading)
    (ha : n * f.unit ≤ a) : n * f.unit ≤ x.value := by
  have hunits := f.units_steps hn (.inl rfl)
  rw [Nat.zero_mul, Nat.zero_add, Nat.pow_zero, Nat.mul_one] at hunits
  have hvalue : f.valueAt n = n * f.unit := by rw [Format.valueAt_natCast, hunits]
  have htop : n ≤ f.top := hn.trans (by cases f <;> decide)
  rw [← hvalue] at ha ⊢
  exact f.valueAt_strictMono.monotone (h.nearest.le_of_valueAt_le (by simpa using htop) ha)

theorem value_minPositive :
    (minPositive : Binary f).value = 2 ^ (f.fractionBits + f.unitExponent) := by
  rw [minPositive, value_number, Format.units_eq]
  have e := f.units_steps (s := 0) (m := f.leading) (by omega) (.inl rfl)
  rw [Nat.zero_mul, Nat.zero_add, Nat.pow_zero, Nat.mul_one, Format.units_eq] at e
  rw [e, Format.leading_eq_pow, Format.unit, zpow_add₀ two_ne_zero, zpow_natCast]
  simp

theorem abs_le_minPositive_of_value_eq_zero (hx : x.isNumber = true) (h : x.value = 0) :
    x.abs ≤ minPositive := by
  rw [le_iff_value (by simpa using hx) rfl, value_abs, value_minPositive, h, abs_zero]
  positivity

/-- A finite number that does not count as zero has a finite reciprocal that is not zero. -/
theorem reciprocal_spec (hx : x.IsFinite) (hbig : ¬ x.abs ≤ minPositive) :
    Rounds (1 / x.value) (1 / x) ∧ (1 / x).IsFinite ∧
      (0 < x.value → 0 < (1 / x).value) ∧ (x.value < 0 → (1 / x).value < 0) := by
  rw [le_iff_value (by simpa using hx.1) rfl, value_abs, value_minPositive, not_le] at hbig
  have hpow : (0 : ℚ) < 2 ^ (f.fractionBits + f.unitExponent) := by positivity
  have hx0 : 0 < |x.value| := hpow.trans hbig
  have hne : x.value ≠ 0 := abs_pos.1 hx0
  have h := rounds_div isFinite_one hx hne
  rw [value_one] at h
  have hle : |1 / x.value| ≤ 2 ^ (-(f.fractionBits + f.unitExponent)) := by
    rw [abs_div, abs_one, zpow_neg, ← one_div]
    exact one_div_le_one_div_of_le hpow hbig.le
  have hge : f.unit ≤ |1 / x.value| := by
    have hlt := hx.abs_value_lt
    rw [Format.valueAt_top] at hlt
    rw [abs_div, abs_one]
    calc f.unit ≤ 1 / 2 ^ 2 ^ (f.exponentBits - 1) := by
          rw [Format.unit, ← zpow_natCast, one_div, ← zpow_neg]
          exact zpow_le_zpow_right₀ one_le_two (by cases f <;> decide)
      _ ≤ 1 / |x.value| := one_div_le_one_div_of_le hx0 hlt.le
  obtain ⟨y, hy, hyv⟩ := exists_value_zpow f (j := -(f.fractionBits + f.unitExponent))
    (by cases f <;> decide) (by cases f <;> decide)
  have hunit := f.unit_pos
  have hone : 1 ≤ 2 * f.leading := Nat.mul_pos two_pos f.leading_pos
  refine ⟨h, h.isFinite_of_abs_le hy (hyv ▸ hle), ?_, ?_⟩
  · intro hpos
    have hq : 0 < 1 / x.value := by positivity
    rw [abs_of_pos hq] at hge
    have hlow := h.units_le_value hone (by simpa using hge)
    rw [Nat.cast_one, one_mul] at hlow
    exact hunit.trans_le hlow
  · intro hneg
    have hq : 1 / x.value < 0 := one_div_neg.2 hneg
    rw [abs_of_neg hq] at hge
    have hlow := h.neg.units_le_value hone (by simpa using hge)
    rw [Nat.cast_one, one_mul, value_neg] at hlow
    linarith

/-- So it is not zero. -/
theorem reciprocal_ne_zero (hx : x.IsFinite) (hbig : ¬ x.abs ≤ minPositive) :
    (1 / x).IsFinite ∧ (1 / x).value ≠ 0 := by
  obtain ⟨-, hfin, hpos, hneg⟩ := reciprocal_spec hx hbig
  have hx0 : x.value ≠ 0 := fun h => hbig (abs_le_minPositive_of_value_eq_zero hx.1 h)
  rcases lt_or_gt_of_ne hx0 with h | h
  · exact ⟨hfin, (hneg h).ne⟩
  · exact ⟨hfin, (hpos h).ne'⟩

/-- The reciprocal of what is not a finite number is a zero or no number. -/
theorem reciprocal_of_not_isFinite (hx : ¬ x.IsFinite) :
    1 / x = nan ∨ ∃ s, 1 / x = signedZero s := by
  cases hn : x.isNumber with
  | false =>
    obtain rfl := eq_nan hn
    exact .inl rfl
  | true =>
    obtain ⟨s, rfl⟩ := exists_eq_signedInfinity hn hx
    right
    have h1 := isFinite_one (f := f)
    change ∃ t, div 1 (signedInfinity s) = signedZero t
    generalize (1 : Binary f) = one at h1
    cases one with
    | nan => cases h1.1
    | number t b hb => exact ⟨t != s, by simp [div, signedInfinity, isFinite_number.1 h1]⟩

/-- A product with a zero is a zero or no number. -/
theorem mul_signedZero (x : Binary f) (s : Bool) :
    x * signedZero s = nan ∨ (x * signedZero s).value = 0 := by
  have hv : (signedZero s : Binary f).value = 0 := by rw [signedZero, value_number]; simp
  by_cases hx : x.IsFinite
  · have hz : (signedZero s : Binary f).IsFinite := isFinite_number.2 f.top_pos.ne
    have h := rounds_mul hx hz
    rw [hv, mul_zero] at h
    exact .inr (le_antisymm (h.value_nonpos le_rfl) (h.value_nonneg le_rfl))
  · left
    cases hn : x.isNumber with
    | false =>
      obtain rfl := eq_nan hn
      rfl
    | true =>
      obtain ⟨t, rfl⟩ := exists_eq_signedInfinity hn hx
      change (signedInfinity t).mul (signedZero s) = nan
      simp [mul, signedInfinity, signedZero]

end Binary

end HitTest
