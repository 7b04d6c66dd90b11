import HitTest.Proofs.Vector.Length

/-!
# Perpendicular directions, rounded (`perpendicular`)

A turned vector is divided by its length. The result has length one up to roundoff as long as the
squares of the components neither underflow nor overflow. Its inner product with the vector is small
in any case: what is turned is perpendicular to the vector, so the exact sum of the products cancels
and their roundoff is all that is left.
-/

namespace HitTest

open Binary hiding min max

variable {f : Format}

/-- Squares from here on do not underflow. -/
theorem Format.leastFull_le_inv_pow (f : Format) {j : ℕ} (hj : 2 * j + 2 ≤ f.exponentBound) :
    f.leastFull ≤ (2 ^ j)⁻¹ * (2 ^ j)⁻¹ := by
  have hpow : (2 : ℚ) ^ j * 2 ^ j * 4 ≤ f.valueAt f.top :=
    calc (2 : ℚ) ^ j * 2 ^ j * 4 = 2 ^ (2 * j + 2) := by ring
      _ ≤ 2 ^ f.exponentBound := pow_le_pow_right₀ one_le_two hj
      _ = f.valueAt f.top := f.valueAt_top_eq.symm
  have hmul := mul_le_mul_of_nonneg_left hpow f.leastFull_pos.le
  rw [f.leastFull_mul_valueAt_top] at hmul
  rw [← mul_inv, le_inv_comm₀ f.leastFull_pos (by positivity), ← one_div,
    le_div_iff₀ f.leastFull_pos]
  linarith

namespace Vec3

variable {v c : Vec3 (Binary f)} {i : Axis}

/-! ## The inner product -/

section Turn

variable (hturn : IsTurn v c i) (h : HasLength c)

include hturn h

theorem abs_coord_le_of_isTurn (j : Axis) : |(v.coord j).value| ≤ 3 * c.norm.value := by
  obtain ⟨k, hk⟩ := hturn.exists_abs_le j
  exact hk.trans (h.abs_coord_le k)

theorem within_of_isTurn (hv : v.All IsFinite) : v.All (Within (f.exponentBound / 2 + 3)) := by
  refine all_iff_coord.2 fun j => ⟨(all_iff_coord.1 hv j).1, ?_⟩
  have hpow := h.le_pow
  have hpos : (0 : ℚ) < 2 ^ (f.exponentBound / 2) := by positivity
  rw [pow_succ] at hpow
  rw [pow_add]
  linarith [abs_coord_le_of_isTurn hturn h j]

/-- What the roundoff of the inner product is measured by. -/
theorem quotients_dot_le :
    c.quotients.dot v.magnitudes + 3 * f.leastFull ≤ 601 / 100 * c.norm.value := by
  have hsplit : c.quotients.dot v.magnitudes =
      c.magnitudes.dot v.magnitudes / c.norm.value + f.leastFull * v.extent := by
    simp only [quotients, dot, magnitudes, values, extent, map_x, map_y, map_z]
    ring
  have hproducts : c.magnitudes.dot v.magnitudes / c.norm.value ≤ 6 * c.norm.value := by
    rw [div_le_iff₀ h.pos]
    linarith [hturn.dot_magnitudes_le, h.normSq_le]
  have hextent : f.leastFull * v.extent ≤ f.roundoff * (9 * c.norm.value) := by
    refine mul_le_mul f.leastFull_le_roundoff ?_ v.extent_nonneg f.roundoff_pos.le
    have hx := abs_coord_le_of_isTurn hturn h .x
    have hy := abs_coord_le_of_isTurn hturn h .y
    have hz := abs_coord_le_of_isTurn hturn h .z
    simp only [coord] at hx hy hz
    unfold extent
    linarith
  have hsmall : f.roundoff * c.norm.value ≤ 1 / 10000 * c.norm.value :=
    mul_le_mul_of_nonneg_right (f.roundoff_le.trans (by norm_num)) h.pos.le
  rw [hsplit]
  linarith [h.leastFull_le, h.pos]

/-- The quotient of what is turned is perpendicular to the vector. -/
theorem abs_dot_div_le (hv : v.All IsFinite) : ((c / c.norm).dot v).IsFinite ∧
    |((c / c.norm).dot v).value| ≤ 25 * f.roundoff * c.norm.value := by
  have hfin : ((c / c.norm).dot v).IsFinite :=
    (within_dot h.within_div (within_of_isTurn hturn h hv) (by cases f <;> decide)).isFinite
      (by cases f <;> decide)
  refine ⟨hfin, ?_⟩
  have herror := (approx_dot (fun i => (h.coord_div i).2) (approx_self hv) hfin).error
  have hexact : (c.values / c.norm.value).dot v.values = 0 := by
    rw [← zero_div c.norm.value, ← hturn.dot_eq_zero]
    simp only [dot, div_x, div_y, div_z]
    ring
  rw [hexact, sub_zero] at herror
  have hg := f.growth_le (k := 4) (by norm_num)
  push_cast at hg
  calc |((c / c.norm).dot v).value|
      ≤ f.growth 4 * (c.quotients.dot v.magnitudes + 3 * f.leastFull) := herror
    _ ≤ f.growth 4 * (601 / 100 * c.norm.value) :=
      mul_le_mul_of_nonneg_left (quotients_dot_le hturn h) (f.growth_nonneg 4)
    _ ≤ 1001 / 1000 * (4 * f.roundoff) * (601 / 100 * c.norm.value) :=
      mul_le_mul_of_nonneg_right hg (by linarith [h.pos])
    _ ≤ 25 * f.roundoff * c.norm.value := by
      have := mul_pos f.roundoff_pos h.pos
      linarith

end Turn

/-- Where the squares underflow to zero, so do the products. -/
theorem isZero_dot_of_isZero_normSq (hv : v.All IsFinite) (hturn : IsTurn v c i)
    (h : c.normSq.IsZero) : (c.dot v).IsZero := by
  have hc := hturn.isFinite
  have hsq : ∀ j, (c.coord j * c.coord j).value = 0 := by
    intro j
    have hle := value_le_value (mul_self_coord_le_normSq hc.isNumber j)
    rw [(isZero_iff.1 h).2] at hle
    exact le_antisymm hle (nonneg_iff.1 (Binary.mul_self_nonneg (all_iff_coord.1 hc j).1)).2
  have hproduct : ∀ j, (c.coord j * v.coord j).IsZero := by
    intro j
    have hround := rounds_mul (all_iff_coord.1 hc j) (all_iff_coord.1 hv j)
    -- no factor is above the component whose square is between the product and zero
    have hbetween : ∀ l, |(c.coord j).value| ≤ |(c.coord l).value| →
        |(v.coord j).value| ≤ |(c.coord l).value| → (c.coord j * v.coord j).IsZero := by
      intro l hcl hvl
      have hl := rounds_mul (all_iff_coord.1 hc l) (all_iff_coord.1 hc l)
      have hle := mul_le_mul hcl hvl (abs_nonneg _) (abs_nonneg _)
      rw [← abs_mul, abs_mul_abs_self] at hle
      have hup := hround.value_le_value hl (abs_le.1 hle).2
      have hlow := hl.neg.value_le_value hround (abs_le.1 hle).1
      rw [hsq] at hup
      rw [value_neg, hsq, neg_zero] at hlow
      exact isZero_iff.2 ⟨hround.isNumber, le_antisymm hup hlow⟩
    obtain ⟨k, hk⟩ := hturn.exists_abs_le j
    rcases le_total |(c.coord j).value| |(c.coord k).value| with hjk | hkj
    · exact hbetween k hjk hk
    · exact hbetween j le_rfl (hk.trans hkj)
  exact ((hproduct .x).add (hproduct .y)).add (hproduct .z)

/-! ## Perpendicular directions -/

theorem perpendicular_eq (v : Vec3 (Binary f)) : v.perpendicular =
    if 0 < v.turned.norm then v.turned / v.turned.norm else v.turned := rfl

/-- What becomes of a vector, by the length of what it is turned to. -/
theorem perpendicular_cases (hv : v.All IsFinite) :
    (HasLength v.turned ∧ v.perpendicular = v.turned / v.turned.norm) ∨
      (v.turned.normSq.IsZero ∧ v.perpendicular = v.turned) ∨
      (¬ v.turned.normSq.IsFinite ∧ v.perpendicular.All IsZero) := by
  obtain ⟨i, hturn⟩ := exists_isTurn hv
  rw [perpendicular_eq]
  by_cases hfin : v.turned.normSq.IsFinite
  · by_cases hpos : 0 < v.turned.norm
    · rw [if_pos hpos]
      exact .inl ⟨hasLength hfin hpos, rfl⟩
    · rw [if_neg hpos]
      exact .inr (.inl ⟨isZero_normSq hfin hpos, rfl⟩)
  · obtain ⟨hnorm, hzero⟩ := isZero_div_norm hturn.isFinite hfin
    have hpos : 0 < v.turned.norm := by
      rw [hnorm, lt_iff, place_zero, place_infinity]
      exact ⟨rfl, rfl, by exact_mod_cast f.top_pos⟩
    rw [if_pos hpos]
    exact .inr (.inr ⟨hfin, hzero⟩)

theorem isFinite_perpendicular (hv : v.All IsFinite) : v.perpendicular.All IsFinite := by
  rcases perpendicular_cases hv with ⟨h, e⟩ | ⟨-, e⟩ | ⟨-, hzero⟩
  · rw [e]
    exact all_iff_coord.2 fun i => (h.coord_div i).2.isFinite
  · rw [e]
    obtain ⟨i, hturn⟩ := exists_isTurn hv
    exact hturn.isFinite
  · exact hzero.mono fun _ h => h.isFinite

/-- Turning does not make a vector longer. -/
theorem norm_turned_le (hv : v.All IsFinite) : v.turned.norm ≤ v.norm := by
  obtain ⟨i, hturn⟩ := exists_isTurn hv
  exact Binary.sqrt_le_sqrt (normSq_nonneg hturn.isFinite.isNumber) (hturn.normSq_le hv)

/-- The inner product with the vector is small against its length. -/
theorem abs_dot_perpendicular_le (hv : v.All IsFinite) (hnorm : v.norm.IsFinite) :
    (v.perpendicular.dot v).IsFinite ∧
      |(v.perpendicular.dot v).value| ≤ 16 * (epsilon : Binary f).value * v.norm.value := by
  obtain ⟨i, hturn⟩ := exists_isTurn hv
  have hle := value_le_value (norm_turned_le hv)
  have hu := f.roundoff_pos
  rw [value_epsilon_eq]
  rcases perpendicular_cases hv with ⟨h, e⟩ | ⟨hzero, e⟩ | ⟨hinf, -⟩
  · obtain ⟨hfin, hdot⟩ := abs_dot_div_le hturn h hv
    rw [e]
    refine ⟨hfin, hdot.trans ?_⟩
    have := mul_le_mul_of_nonneg_left hle hu.le
    have := mul_pos hu h.pos
    linarith
  · have hdot := isZero_dot_of_isZero_normSq hv hturn hzero
    rw [e, (isZero_iff.1 hdot).2, abs_zero]
    have h0 : 0 ≤ v.norm := sqrt_nonneg (normSq_nonneg hv.isNumber)
    have := mul_nonneg hu.le (nonneg_iff.1 h0).2
    exact ⟨hdot.isFinite, by linarith⟩
  · -- the length of the vector is not below one that overflows
    have hturned := norm_turned_le hv
    rw [(isZero_div_norm hturn.isFinite hinf).1] at hturned
    rw [eq_infinity_of_le hturned] at hnorm
    exact absurd rfl (isFinite_number.1 hnorm)

/-- The length is one up to what underflows in the squares. -/
theorem abs_normSq_perpendicular_sub_one_le (hfin : v.turned.normSq.IsFinite)
    (hpos : 0 < v.turned.normSq) (hv : v.All IsFinite) : v.perpendicular.normSq.IsFinite ∧
      |v.perpendicular.normSq.value - 1| ≤
        6 * (epsilon : Binary f).value + 5 * (f.unit / v.turned.normSq.value) := by
  rcases perpendicular_cases hv with ⟨h, e⟩ | ⟨hzero, -⟩ | ⟨hinf, -⟩
  · rw [e, value_epsilon_eq]
    refine ⟨h.normSq_div.1, h.normSq_div.2.trans (le_of_eq ?_)⟩
    ring
  · exact absurd (isZero_iff.1 hzero).2 (pos_iff.1 hpos).2.ne'
  · exact absurd hfin hinf

/-- A computed squared length that is one up to 16 times the distance of neighbors of one. -/
def IsNearlyUnit (r : Vec3 (Binary f)) : Prop :=
  r.normSq.IsFinite ∧ |r.normSq.value - 1| ≤ 16 * (epsilon : Binary f).value

instance (r : Vec3 (Binary f)) : Decidable r.IsNearlyUnit :=
  inferInstanceAs (Decidable (_ ∧ _ ≤ _))

/-- Where the squared length that is divided by has a full significand, nothing is lost. -/
theorem isNearlyUnit_perpendicular (hv : v.All IsFinite) (hfin : v.turned.normSq.IsFinite)
    (hmin : minPositive ≤ v.turned.normSq) : v.perpendicular.IsNearlyUnit := by
  have hleast := value_le_value hmin
  rw [value_minPositive_eq] at hleast
  have hL := f.leastFull_pos.trans_le hleast
  obtain ⟨hunit, hnear⟩ := abs_normSq_perpendicular_sub_one_le hfin (pos_iff.2 ⟨hfin.1, hL⟩) hv
  have hshare : f.unit / v.turned.normSq.value ≤ (epsilon : Binary f).value := by
    rw [div_le_iff₀ hL, value_epsilon_eq]
    have := mul_le_mul_of_nonneg_left hleast f.roundoff_pos.le
    linarith [f.roundoff_mul_leastFull]
  refine ⟨hunit, hnear.trans ?_⟩
  rw [value_epsilon_eq] at *
  linarith [f.roundoff_pos]

/-- It has one if the components are neither all too small nor too large to be squared. -/
theorem normSq_turned_of_within {j k : ℕ} (hv : v.All (Within k))
    (hj : 2 * j + 2 ≤ f.exponentBound) (hk : 2 * k + 2 < f.exponentBound) {i : Axis}
    (hi : (2 ^ j)⁻¹ ≤ |(v.coord i).value|) :
    v.turned.normSq.IsFinite ∧ minPositive ≤ v.turned.normSq := by
  obtain ⟨a, hturn⟩ := exists_isTurn (hv.mono fun _ h => h.isFinite (by omega))
  have hwithin : v.turned.All (Within k) := all_iff_coord.2 fun l => by
    obtain ⟨m, hm⟩ := hturn.exists_abs_ge l
    exact ⟨(all_iff_coord.1 hturn.isFinite l).1, hm.trans (all_iff_coord.1 hv m).le⟩
  refine ⟨(within_dot hwithin hwithin (by omega)).isFinite (by omega), ?_⟩
  obtain ⟨l, hl⟩ := hturn.exists_abs_le i
  have hfin := all_iff_coord.1 hturn.isFinite l
  have hround := rounds_mul hfin hfin
  have hsq : f.leastFull ≤ (v.turned.coord l).value * (v.turned.coord l).value :=
    calc f.leastFull ≤ (2 ^ j)⁻¹ * (2 ^ j)⁻¹ := f.leastFull_le_inv_pow hj
      _ ≤ |(v.turned.coord l).value| * |(v.turned.coord l).value| :=
        mul_self_le_mul_self (by positivity) (hi.trans hl)
      _ = (v.turned.coord l).value * (v.turned.coord l).value := abs_mul_abs_self _
  rw [← value_minPositive_eq] at hsq
  exact Binary.le_trans ((le_iff_value rfl hround.isNumber).2 (hround.le_value rfl hsq))
    (mul_self_coord_le_normSq hturn.isFinite.isNumber l)

/-- A length that underflows to zero or overflows is lost. -/
theorem isZero_normSq_perpendicular (hv : v.All IsFinite)
    (h : v.turned.normSq.IsZero ∨ ¬ v.turned.normSq.IsFinite) :
    v.perpendicular.normSq.IsZero := by
  rcases perpendicular_cases hv with ⟨hlength, -⟩ | ⟨hzero, e⟩ | ⟨-, hzero⟩
  · exact (h.elim hlength.not_isZero (· hlength.normSq_isFinite)).elim
  · rw [e]
    exact hzero
  · exact hzero.isZero_normSq

/-- A zero vector has no perpendicular direction. -/
theorem isZero_perpendicular (hv : v.All IsZero) : v.perpendicular.All IsZero := by
  have hfin := hv.mono fun _ h => h.isFinite
  obtain ⟨i, hturn⟩ := exists_isTurn hfin
  have hturned : v.turned.All IsZero := all_iff_coord.2 fun j => by
    obtain ⟨k, hk⟩ := hturn.exists_abs_ge j
    rw [(isZero_iff.1 (all_iff_coord.1 hv k)).2, abs_zero] at hk
    exact isZero_iff.2 ⟨(all_iff_coord.1 hturn.isFinite j).1, abs_nonpos_iff.1 hk⟩
  rcases perpendicular_cases hfin with ⟨h, -⟩ | ⟨-, e⟩ | ⟨-, hperp⟩
  · exact absurd hturned.isZero_normSq h.not_isZero
  · rw [e]
    exact hturned
  · exact hperp

/-- **What is perpendicular to a finite vector.** The result is finite, and its inner product with
the vector is zero up to roundoff unless the length of the vector overflows (`perpendicular`). Its
squared length is one up to roundoff and to what underflows in the squares, and up to roundoff alone
where the squared length of the turned vector has a full significand, as it does where the
components can be squared. Where that is zero or overflows, the result has length zero. The result
for a zero vector is zero. -/
theorem perpendicular_unit_orthogonal (hv : v.All IsFinite) :
    v.perpendicular.All IsFinite ∧
    (v.norm.IsFinite → (v.perpendicular.dot v).IsFinite ∧
      |(v.perpendicular.dot v).value| ≤ 16 * (epsilon : Binary f).value * v.norm.value) ∧
    (v.turned.normSq.IsFinite → 0 < v.turned.normSq → v.perpendicular.normSq.IsFinite ∧
      |v.perpendicular.normSq.value - 1| ≤
        6 * (epsilon : Binary f).value + 5 * (f.unit / v.turned.normSq.value)) ∧
    (v.turned.normSq.IsFinite → minPositive ≤ v.turned.normSq → v.perpendicular.IsNearlyUnit) ∧
    (∀ j k : ℕ, 2 * j + 2 ≤ f.exponentBound → 2 * k + 2 < f.exponentBound → v.All (Within k) →
      (∃ i, (2 ^ j)⁻¹ ≤ |(v.coord i).value|) → v.perpendicular.IsNearlyUnit) ∧
    (v.turned.normSq.IsZero ∨ ¬ v.turned.normSq.IsFinite → v.perpendicular.normSq.IsZero) ∧
    (v.All IsZero → v.perpendicular.All IsZero) := by
  refine ⟨isFinite_perpendicular hv, abs_dot_perpendicular_le hv,
    fun hfin hpos => abs_normSq_perpendicular_sub_one_le hfin hpos hv,
    isNearlyUnit_perpendicular hv, fun j k hj hk hwithin hlarge => ?_,
    isZero_normSq_perpendicular hv, isZero_perpendicular⟩
  obtain ⟨i, hi⟩ := hlarge
  obtain ⟨hfin, hmin⟩ := normSq_turned_of_within hwithin hj hk hi
  exact isNearlyUnit_perpendicular hv hfin hmin

/-- A vector of length five. -/
theorem perpendicular_unit_orthogonal_five :
    (⟨0, ofNat 3, ofNat 4⟩ : Vec3 Binary32).perpendicular.All IsFinite ∧
      (⟨0, ofNat 3, ofNat 4⟩ : Vec3 Binary32).perpendicular.IsNearlyUnit := by
  obtain ⟨hfin, -, -, hunit, -⟩ :=
    perpendicular_unit_orthogonal (v := (⟨0, ofNat 3, ofNat 4⟩ : Vec3 Binary32)) (by decide)
  exact ⟨hfin, hunit (by decide +kernel) (by decide +kernel)⟩

/-- A finite vector that is not zero is given a direction that has not length one. -/
def LosesLength (v : Vec3 (Binary f)) : Prop :=
  v.All IsFinite ∧ (v == 0) = false ∧ ¬ v.perpendicular.IsNearlyUnit

instance (v : Vec3 (Binary f)) : Decidable v.LosesLength :=
  inferInstanceAs (Decidable (_ ∧ _ ∧ ¬ _))

/-- The squares of `2 ^ -100` underflow, and those of `2 ^ 100` overflow. -/
theorem losesLength_of_small_and_large :
    (⟨0, 0, ofDyadic 1 (-100)⟩ : Vec3 Binary32).LosesLength ∧
      (⟨0, 0, ofDyadic 1 100⟩ : Vec3 Binary32).LosesLength := by
  decide +kernel

end Vec3

end HitTest
