import HitTest.Proofs.Binary.Order

/-!
# Square roots are rounded

The root of a rational number need not be rational, so no rational number is there to be rounded.
But there are rational numbers as close to it as one likes on both sides, and for the root of a
number of the format some of them are rounded to the root that is computed. That is enough to
compare roots: the rounded square root is monotone.
-/

namespace HitTest

/-- Around a root that is not on the grid there are rational numbers in the same gap of the grid: on
the chord of the parabola below the root, on its tangent above it. -/
theorem exists_around_root {n q : ℚ} (h1 : q * q < n) (h2 : n < (q + 1) * (q + 1)) :
    ∃ l u : ℚ, (q < l ∧ l < q + 1 ∧ l * l ≤ n) ∧ q < u ∧ u < q + 1 ∧ n ≤ u * u := by
  have hchord : 0 < 2 * q + 1 := by linarith
  have htangent : 0 < 2 * (q + 1) := by linarith
  obtain ⟨s, hs⟩ : ∃ s, (2 * q + 1) * s = n - q * q := ⟨_, mul_div_cancel₀ _ hchord.ne'⟩
  obtain ⟨t, ht⟩ : ∃ t, 2 * (q + 1) * t = (q + 1) * (q + 1) - n :=
    ⟨_, mul_div_cancel₀ _ htangent.ne'⟩
  have hs0 : 0 < s := pos_of_mul_pos_right (by linarith) hchord.le
  have hs1 : s < 1 := by nlinarith
  have ht0 : 0 < t := pos_of_mul_pos_right (by linarith) htangent.le
  have ht1 : t < 1 := by nlinarith
  refine ⟨q + s, q + 1 - t, ⟨by linarith, by linarith, ?_⟩, by linarith, by linarith, ?_⟩
  · nlinarith
  · nlinarith [mul_self_nonneg t]

namespace Binary

variable {f : Format} {x y : Binary f} {a b : ℚ}

/-- A number is nearest to a square root, which need not be rational: rational numbers that are not
above the root and not below it are rounded to this number. -/
structure RoundsRoot (a : ℚ) (z : Binary f) : Prop where
  lower : ∃ l, 0 ≤ l ∧ l * l ≤ a ∧ Rounds l z
  upper : ∃ u, 0 ≤ u ∧ a ≤ u * u ∧ Rounds u z

namespace RoundsRoot

theorem isNumber (h : RoundsRoot a x) : x.isNumber = true := by
  obtain ⟨l, -, -, hl⟩ := h.lower
  exact hl.isNumber

theorem value_nonneg (h : RoundsRoot a x) : 0 ≤ x.value := by
  obtain ⟨l, h0, -, hl⟩ := h.lower
  exact hl.value_nonneg h0

/-- A root that is rational is rounded. -/
theorem of_rounds (h0 : 0 ≤ b) (h : Rounds b x) : RoundsRoot (b * b) x :=
  ⟨⟨b, h0, le_rfl, h⟩, ⟨b, h0, le_rfl, h⟩⟩

/-- Rounded roots are in the order of what they are the roots of. -/
theorem value_le_value (hx : RoundsRoot a x) (hy : RoundsRoot b y) (h : a ≤ b) :
    x.value ≤ y.value := by
  obtain ⟨l, hl0, hla, hl⟩ := hx.lower
  obtain ⟨u, hu0, hub, hu⟩ := hy.upper
  have hlu : l ≤ u := abs_le_of_sq_le_sq' (by nlinarith) hu0 |>.2
  exact hl.value_le_value hu hlu

end RoundsRoot

/-- The integer root of the shifted significand, with a digit for the rest, is rounded like the root
itself. -/
theorem roundsRoot_withRest {n : Nat} (hn : 2 * f.leading ≤ n.sqrt) (t : Int) :
    RoundsRoot (n * (2 ^ t * f.unit) ^ 2)
      (nearest false (withRest n.sqrt (n.sqrt * n.sqrt ≠ n)) (t - 1) : Binary f) := by
  have hstep : 0 < 2 ^ t * f.unit := mul_pos (by positivity) f.unit_pos
  have hle : n.sqrt * n.sqrt ≤ n := Nat.sqrt_le n
  have hlt : (n : ℚ) < (n.sqrt + 1) * (n.sqrt + 1) := by exact_mod_cast Nat.lt_succ_sqrt n
  generalize n.sqrt = q at *
  have rounds : ∀ {z : ℚ}, q ≤ z → z < q + 1 → (q * q = n ↔ q = z) →
      Rounds (z * (2 ^ t * f.unit))
        (nearest false (withRest q (q * q ≠ n)) (t - 1) : Binary f) := by
    intro z h1 h2 h
    have hz := rounds_withRest hn false t h1 h2 (q * q ≠ n) (by simp [h])
    rwa [signFactor_false, Int.cast_one, one_mul, mul_assoc] at hz
  have square : ∀ z : ℚ, z * (2 ^ t * f.unit) * (z * (2 ^ t * f.unit)) =
      z * z * (2 ^ t * f.unit) ^ 2 := fun z => by ring
  have hscale : 0 ≤ (2 ^ t * f.unit) ^ 2 := sq_nonneg _
  by_cases hsq : q * q = n
  · have hroot : (n : ℚ) = q * q := by exact_mod_cast hsq.symm
    rw [hroot, ← square]
    exact .of_rounds (by positivity) (rounds le_rfl (by linarith) (by simp [hsq]))
  · have hgt : (q : ℚ) * q < n := by exact_mod_cast lt_of_le_of_ne hle hsq
    obtain ⟨l, u, ⟨hql, hlq, hl⟩, hqu, huq, hu⟩ := exists_around_root hgt hlt
    have hq0 : (0 : ℚ) ≤ q := q.cast_nonneg
    refine ⟨⟨_, mul_nonneg (hq0.trans hql.le) hstep.le, ?_, rounds hql.le hlq ?_⟩,
      ⟨_, mul_nonneg (hq0.trans hqu.le) hstep.le, ?_, rounds hqu.le huq ?_⟩⟩
    · rw [square]
      exact mul_le_mul_of_nonneg_right hl hscale
    · simp [hsq, hql.ne]
    · rw [square]
      exact mul_le_mul_of_nonneg_right hu hscale
    · simp [hsq, hqu.ne]

/-- The shift before the root is taken leaves a root of more digits than a full significand. -/
theorem leading_le_sqrt (f : Format) {m up : Nat} (hm : 0 < m)
    (hup : 2 * f.fractionBits + 4 ≤ up + m.log2) : 2 * f.leading ≤ (m <<< up).sqrt := by
  have hm2 : 2 ^ m.log2 ≤ m := Nat.log2_self_le hm.ne'
  rw [Nat.le_sqrt, Nat.shiftLeft_eq, f.leading_eq_pow]
  calc 2 * 2 ^ f.fractionBits * (2 * 2 ^ f.fractionBits) = 2 ^ (2 * f.fractionBits + 2) := by ring
    _ ≤ 2 ^ (m.log2 + up) := Nat.pow_le_pow_right (by decide) (by omega)
    _ = 2 ^ m.log2 * 2 ^ up := pow_add _ _ _
    _ ≤ m * 2 ^ up := Nat.mul_le_mul_right _ hm2

theorem roundsRoot_sqrtFinite {a : Nat} (ha : a ≠ 0) :
    RoundsRoot (f.units a * f.unit) (sqrtFinite a : Binary f) := by
  unfold sqrtFinite
  dsimp only
  have hm := significand_pos f ha
  rw [f.units_eq]
  generalize f.significand a = m at *
  generalize hup0 : 2 * f.fractionBits + 4 - m.log2 = up0
  generalize hup : (if (f.scale a + f.unitExponent - up0) % 2 = 0 then up0 else up0 + 1) = up
  have heven : (f.scale a + f.unitExponent - up) % 2 = 0 := by
    rw [← hup]
    split <;> omega
  have hle : 2 * f.fractionBits + 4 ≤ up + m.log2 := by
    have : up0 ≤ up := by rw [← hup]; split <;> omega
    omega
  convert roundsRoot_withRest (leading_le_sqrt f hm hle)
    ((f.scale a + f.unitExponent - up) / 2 - f.unitExponent) using 1
  -- the exponent is even, so half of it is the exponent of the root
  rw [Format.unit, ← zpow_add₀ two_ne_zero, sub_add_cancel, ← zpow_natCast, ← zpow_mul,
    Nat.cast_ofNat, Int.ediv_mul_cancel (Int.dvd_of_emod_eq_zero heven), zpow_sub₀ two_ne_zero,
    zpow_add₀ two_ne_zero, zpow_natCast, zpow_natCast, Nat.shiftLeft_eq]
  push_cast
  field_simp

/-- The square root of a finite number that is not below zero is rounded. -/
theorem roundsRoot_sqrt (hx : x.IsFinite) (h0 : 0 ≤ x) : RoundsRoot x.value x.sqrt := by
  cases x with
  | nan => cases hx.1
  | number s a ha =>
    unfold sqrt
    dsimp only
    by_cases ha0 : a = 0
    · subst ha0
      have hzero : (number s 0 ha).value = 0 := by simp [value_number]
      have h := Rounds.self (x := number s 0 ha) rfl
      rw [hzero] at h
      rw [if_pos rfl, hzero, ← mul_zero 0]
      exact .of_rounds le_rfl h
    · rw [if_neg ha0]
      cases s with
      | true =>
        -- what is not zero and has a sign is below zero
        rw [le_iff, place_zero, place_number, signFactor_true] at h0
        omega
      | false =>
        rw [if_neg Bool.false_ne_true, if_neg (isFinite_number.1 hx), value_number,
          signFactor_false, Int.cast_one, one_mul]
        exact roundsRoot_sqrtFinite ha0

theorem sqrt_signedInfinity : (signedInfinity false : Binary f).sqrt = signedInfinity false := by
  simp [signedInfinity, sqrt]

theorem sqrt_nonneg (h0 : 0 ≤ x) : 0 ≤ x.sqrt := by
  rcases isFinite_or_infinite_of_nonneg h0 with hx | rfl
  · have h := roundsRoot_sqrt hx h0
    exact nonneg_iff.2 ⟨h.isNumber, h.value_nonneg⟩
  · rw [sqrt_signedInfinity]
    exact h0

/-- Rounded roots are in the order of their arguments. -/
protected theorem sqrt_le_sqrt (h0 : 0 ≤ x) (hxy : x ≤ y) : x.sqrt ≤ y.sqrt := by
  have hy0 := Binary.le_trans h0 hxy
  rcases isFinite_or_infinite_of_nonneg hy0 with hy | rfl
  · have hrx := roundsRoot_sqrt (hy.of_nonneg_of_le h0 hxy) h0
    have hry := roundsRoot_sqrt hy hy0
    rw [le_iff_value hrx.isNumber hry.isNumber]
    exact hrx.value_le_value hry (value_le_value hxy)
  · rw [sqrt_signedInfinity]
    exact le_signedInfinity (isNumber_right (sqrt_nonneg h0))

end Binary

end HitTest
