import HitTest.Proofs.Binary.Magnitude
import HitTest.Proofs.Binary.Roundoff

/-!
# Powers of two go through rounding

From the least number with a full significand on, twice a number is one number of ranks further on,
and so is the midpoint to the next. So a result that is rounded to there, and then scaled by a power
of two without leaving the format, is what the scaled exact result is rounded to. Numbers that are
scaled alike keep their order, and the operations take scaled numbers to scaled numbers: sums as
long as they do not overflow, products and quotients as long as they do not underflow either, and
roots always.
-/

namespace HitTest

/-! ## The grid -/

namespace Format

variable {f : Format} {x y : ℚ} {p q : Int}

/-- One more scale doubles the magnitude of a rank with a full significand. -/
theorem units_add_leading (f : Format) {r : Nat} (h : f.leading ≤ r) :
    f.units (r + f.leading) = 2 * f.units r := by
  have hsig : f.leading ≤ f.significand r := by
    rcases f.scale_eq_zero_or r with h0 | h0
    · have hrank := f.rank_eq r
      rw [h0, Nat.zero_mul, Nat.zero_add] at hrank
      omega
    · exact h0
  have hrank : r + f.leading = (f.scale r + 1) * f.leading + f.significand r := by
    conv_lhs => rw [f.rank_eq r]
    ring
  rw [hrank, f.units_steps (f.significand_lt r).le (.inr hsig), f.units_eq, pow_succ]
  ring

theorem valueAt_add_leading (f : Format) (h : (f.leading : Int) ≤ p) :
    f.valueAt (p + f.leading) = 2 * f.valueAt p := by
  lift p to Nat using (Int.natCast_nonneg _).trans h
  rw [← Nat.cast_add, valueAt_natCast, valueAt_natCast, f.units_add_leading (by exact_mod_cast h)]
  push_cast
  ring

theorem valueAt_add_mul_leading (f : Format) (h : (f.leading : Int) ≤ p) (k : Nat) :
    f.valueAt (p + k * f.leading) = 2 ^ k * f.valueAt p := by
  induction k with
  | zero => simp
  | succ k ih =>
    have hle : (f.leading : Int) ≤ p + k * f.leading := by
      have : (0 : Int) ≤ k * f.leading := by positivity
      omega
    rw [Nat.cast_succ, add_mul, one_mul, ← add_assoc, f.valueAt_add_leading hle, ih, pow_succ]
    ring

namespace Nearest

/-- What is between two numbers that are rounded to one place is rounded to it too. -/
theorem of_le_of_le {m : ℚ} (hx : f.Nearest x p) (hy : f.Nearest y p) (hxm : x ≤ m) (hmy : m ≤ y) :
    f.Nearest m p where
  in_range := hx.in_range
  lower hp := by
    obtain ⟨h, heven⟩ := hx.lower hp
    exact ⟨h.trans hxm, fun e => heven (le_antisymm h (e ▸ hxm))⟩
  upper hp := by
    obtain ⟨h, heven⟩ := hy.upper hp
    exact ⟨hmy.trans h, fun e => heven (le_antisymm h (e ▸ hmy))⟩

/-- What is rounded to a full significand is doubled by going one scale on. -/
theorem double (h : f.Nearest x p) (hp : f.leading < p) (htop : p + f.leading ≤ f.top) :
    f.Nearest (2 * x) (p + f.leading) := by
  have hL : (0 : Int) < f.leading := by exact_mod_cast f.leading_pos
  have heven : Even (f.leading : Int) := by exact_mod_cast f.even_leading
  have hmid : ∀ q : Int, f.leading ≤ q → f.midpoint (q + f.leading) = 2 * f.midpoint q := by
    intro q hq
    rw [midpoint, midpoint, add_right_comm, f.valueAt_add_leading hq,
      f.valueAt_add_leading (by omega)]
    ring
  obtain ⟨hlow, hlow'⟩ := h.lower (by omega)
  obtain ⟨hup, hup'⟩ := h.upper (by omega)
  have hpred := hmid (p - 1) (by omega)
  have hsame := hmid p (by omega)
  refine ⟨abs_le.2 ⟨by omega, htop⟩, fun _ => ?_, fun _ => ?_⟩
  · rw [add_sub_right_comm, hpred]
    exact ⟨by linarith, fun e => (hlow' (by linarith)).add heven⟩
  · rw [hsame]
    exact ⟨by linarith, fun e => (hup' (by linarith)).add heven⟩

/-- So scaling by a power of two goes that many scales on, if that stays in the format. -/
theorem eq_add_mul_leading {k : Nat} (h : f.Nearest x p) (hp : f.leading < p)
    (h' : f.Nearest (2 ^ k * x) q) (hq : q < f.top) : q = p + k * f.leading := by
  induction k generalizing x p with
  | zero =>
    rw [pow_zero, one_mul] at h'
    simpa using h'.unique h
  | succ k ih =>
    have hL : (0 : Int) < f.leading := by exact_mod_cast f.leading_pos
    have hx : 0 < x := h.pos (by omega)
    have htop : p + f.leading ≤ f.top := by
      by_contra hgt
      have hroom : (2 * f.leading : Int) ≤ f.top := by cases f <;> decide
      have hend : f.valueAt f.top = 2 * f.valueAt (f.top - f.leading) := by
        rw [← f.valueAt_add_leading (by omega), sub_add_cancel]
      have hmono := f.valueAt_strictMono.monotone (show f.top - f.leading ≤ p - 1 by omega)
      have hlt := (f.valueAt_lt_midpoint (p - 1)).trans_le (h.lower (by omega)).1
      -- twice the exact result is already beyond the end
      have hpow : 2 * x ≤ 2 ^ (k + 1) * x := by
        rw [pow_succ, mul_assoc]
        exact le_mul_of_one_le_left (by linarith) (one_le_pow₀ one_le_two)
      have hle := h'.le_of_valueAt_le (q := f.top) (by simp) (by linarith)
      omega
    have := ih (h.double hp htop) (by omega) (by rwa [← mul_assoc, ← pow_succ])
    rw [this]
    push_cast
    ring

theorem valueAt_scale {k : Nat} (h : f.Nearest x p) (hp : f.leading < |p|)
    (h' : f.Nearest (2 ^ k * x) q) (hq : |q| < f.top) : f.valueAt q = 2 ^ k * f.valueAt p := by
  have hpos : ∀ {x : ℚ} {p q : Int}, f.Nearest x p → (f.leading : Int) < p →
      f.Nearest (2 ^ k * x) q → q < f.top → f.valueAt q = 2 ^ k * f.valueAt p := by
    intro x p q h hp h' hq
    rw [h.eq_add_mul_leading hp h' hq, f.valueAt_add_mul_leading hp.le]
  obtain ⟨hq1, hq2⟩ := abs_lt.1 hq
  rcases lt_abs.1 hp with hp | hp
  · exact hpos h hp h' hq2
  · have hneg := hpos h.neg hp (by rw [mul_neg]; exact h'.neg) (by omega)
    rw [valueAt_neg, valueAt_neg, mul_neg, neg_inj] at hneg
    exact hneg

end Nearest

end Format

/-! ## Rounding -/

namespace Binary

variable {f : Format} {x x' y y' z z' : Binary f} {a : ℚ} {j k : ℤ}

theorem leading_lt_abs_place (hx : x.isNumber = true) (hbig : ¬ x.abs ≤ minPositive) :
    (f.leading : Int) < |x.place| := by
  rw [Binary.not_le (by simpa using hx) rfl, lt_iff, place_abs] at hbig
  exact hbig.2.2

/-- A result that is not too small and a scaled one that is not too large differ by the factor that
the exact results differ by. -/
theorem Rounds.value_scale_natCast {k : Nat} (h : Rounds a z) (hbig : ¬ z.abs ≤ minPositive)
    (h' : Rounds (2 ^ k * a) z') (hz' : z'.IsFinite) : z'.value = 2 ^ k * z.value :=
  h.nearest.valueAt_scale (leading_lt_abs_place h.isNumber hbig) h'.nearest hz'.2

/-- Scaling up or down, neither result may be too small or too large. -/
theorem Rounds.value_scale (h : Rounds a z) (hz : z.IsFinite) (hbig : ¬ z.abs ≤ minPositive)
    (h' : Rounds (2 ^ k * a) z') (hz' : z'.IsFinite) (hbig' : ¬ z'.abs ≤ minPositive) :
    z'.value = 2 ^ k * z.value := by
  cases k with
  | ofNat k =>
    rw [Int.ofNat_eq_natCast, zpow_natCast] at h' ⊢
    exact h.value_scale_natCast hbig h' hz'
  | negSucc k =>
    have hback : (2 : ℚ) ^ (k + 1) * 2 ^ Int.negSucc k = 1 := by
      rw [zpow_negSucc, mul_inv_cancel₀ (by positivity)]
    have h2 : Rounds (2 ^ (k + 1) * (2 ^ Int.negSucc k * a)) z := by
      rwa [← mul_assoc, hback, one_mul]
    rw [h'.value_scale_natCast hbig' h2 hz, ← mul_assoc, mul_comm _ (2 ^ (k + 1)), hback, one_mul]

/-! ## Exact results on a grid -/

/-- What is on the grid before and after scaling is not rounded. -/
theorem Rounds.value_eq_of_steps {n : Int} {t : Nat} (h : Rounds (n * 2 ^ t * f.unit) z)
    (hz : z.IsFinite) (hn : n.natAbs ≤ 2 * f.leading) : z.value = n * 2 ^ t * f.unit := by
  obtain ⟨p, hp⟩ := f.exists_valueAt_of_multiple (t := t) hn
  have hnear := h.nearest
  rw [← hp] at hnear ⊢
  rw [value, hnear.eq_of_valueAt hz.2]

/-- A whole number of units that is rounded to a small number has few units. -/
theorem Rounds.natAbs_le_of_small {n : Int} (h : Rounds (n * f.unit) z)
    (hsmall : z.abs ≤ minPositive) : n.natAbs ≤ 2 * f.leading := by
  have hL := f.leading_pos
  have hroom : 2 * f.leading ≤ f.top := by cases f <;> decide
  have hplace : |z.place| ≤ f.leading := by
    rw [le_iff, place_abs] at hsmall
    exact hsmall.2.2
  obtain ⟨hlow, hup⟩ := abs_le.1 hplace
  -- so many units are a number, and are not rounded below themselves
  have hle : ∀ {m : Int} {z : Binary f}, Rounds (m * f.unit) z → (2 * f.leading : Nat) < m →
      ((2 * f.leading : Nat) : Int) ≤ z.place := by
    intro m z h hm
    refine h.nearest.le_of_valueAt_le (by rw [Nat.abs_cast]; exact_mod_cast hroom) ?_
    have hsteps := f.valueAt_steps (s := 0) (m := 2 * f.leading) le_rfl (.inl rfl)
    rw [Nat.zero_mul, Nat.zero_add, pow_zero, mul_one] at hsteps
    rw [hsteps]
    exact mul_le_mul_of_nonneg_right (by exact_mod_cast hm.le) f.unit_pos.le
  by_contra hn
  rcases le_total 0 n with h0 | h0
  · have := hle h (by omega)
    omega
  · have hneg := h.neg
    rw [← neg_mul, ← Int.cast_neg] at hneg
    have := hle hneg (by omega)
    rw [place_neg] at this
    omega

/-- A sum is scaled like its terms, if it does not overflow. Whether it is small makes no
difference, because small sums are exact. -/
theorem value_add_scale_natCast {k : Nat} (hx : x.IsFinite) (hy : y.IsFinite) (hx' : x'.IsFinite)
    (hy' : y'.IsFinite) (hxx : x'.value = 2 ^ k * x.value) (hyy : y'.value = 2 ^ k * y.value)
    (h : (x + y).IsFinite) (h' : (x' + y').IsFinite) :
    (x' + y').value = 2 ^ k * (x + y).value := by
  have hsum := rounds_add hx hy
  have hsum' := rounds_add hx' hy'
  rw [hxx, hyy, ← mul_add] at hsum'
  by_cases hbig : (x + y).abs ≤ minPositive
  · obtain ⟨n, hn⟩ := (isMultiple_value hx.1).add (isMultiple_value hy.1)
    rw [pow_zero, mul_one] at hn
    rw [hn] at hsum hsum'
    have hsteps := hsum.natAbs_le_of_small hbig
    have e : (2 : ℚ) ^ k * (n * f.unit) = n * 2 ^ k * f.unit := by ring
    have e0 : (n : ℚ) * f.unit = n * 2 ^ 0 * f.unit := by ring
    rw [e] at hsum'
    rw [e0] at hsum
    rw [hsum'.value_eq_of_steps h' hsteps, hsum.value_eq_of_steps h hsteps]
    ring
  · exact hsum.value_scale_natCast hbig hsum' h'

theorem value_add_scale (hx : x.IsFinite) (hy : y.IsFinite) (hx' : x'.IsFinite) (hy' : y'.IsFinite)
    (hxx : x'.value = 2 ^ k * x.value) (hyy : y'.value = 2 ^ k * y.value) (h : (x + y).IsFinite)
    (h' : (x' + y').IsFinite) : (x' + y').value = 2 ^ k * (x + y).value := by
  cases k with
  | ofNat k =>
    rw [Int.ofNat_eq_natCast, zpow_natCast] at hxx hyy ⊢
    exact value_add_scale_natCast hx hy hx' hy' hxx hyy h h'
  | negSucc k =>
    have hpow : (2 : ℚ) ^ (k + 1) ≠ 0 := by positivity
    rw [zpow_negSucc, eq_inv_mul_iff_mul_eq₀ hpow] at hxx hyy ⊢
    exact (value_add_scale_natCast hx' hy' hx hy hxx.symm hyy.symm h' h).symm

/-! ## Results in range -/

/-- A sum of finite numbers does not overflow. -/
def AddFits (x y : Binary f) : Prop := x.IsFinite → y.IsFinite → (x + y).IsFinite

/-- A product of finite numbers does not overflow, nor underflow unless a factor is zero. -/
def MulFits (x y : Binary f) : Prop :=
  x.IsFinite → y.IsFinite →
    (x * y).IsFinite ∧ (x.value ≠ 0 → y.value ≠ 0 → ¬ (x * y).abs ≤ minPositive)

/-- A quotient of finite numbers does not overflow, nor underflow unless the dividend is zero. -/
def DivFits (x y : Binary f) : Prop :=
  x.IsFinite → y.IsFinite → (x / y).IsFinite ∧ (x.value ≠ 0 → ¬ (x / y).abs ≤ minPositive)

/-- What counts as zero is zero. -/
def IsClear (x : Binary f) : Prop := x.abs ≤ minPositive → x.value = 0

theorem value_mul_scale (hx : x.IsFinite) (hy : y.IsFinite) (hx' : x'.IsFinite) (hy' : y'.IsFinite)
    (hxx : x'.value = 2 ^ j * x.value) (hyy : y'.value = 2 ^ k * y.value) (h : MulFits x y)
    (h' : MulFits x' y') : (x' * y').value = 2 ^ (j + k) * (x * y).value := by
  have hprod := rounds_mul hx hy
  have hprod' := rounds_mul hx' hy'
  have e : x'.value * y'.value = 2 ^ (j + k) * (x.value * y.value) := by
    rw [hxx, hyy, zpow_add₀ two_ne_zero]
    ring
  by_cases h0 : x.value * y.value = 0
  · rw [e, h0, mul_zero] at hprod'
    rw [h0] at hprod
    rw [hprod.value_eq_zero, hprod'.value_eq_zero, mul_zero]
  · obtain ⟨hx0, hy0⟩ := mul_ne_zero_iff.1 h0
    have hx0' : x'.value ≠ 0 := hxx ▸ mul_ne_zero (by positivity) hx0
    have hy0' : y'.value ≠ 0 := hyy ▸ mul_ne_zero (by positivity) hy0
    rw [e] at hprod'
    exact hprod.value_scale (h hx hy).1 ((h hx hy).2 hx0 hy0) hprod' (h' hx' hy').1
      ((h' hx' hy').2 hx0' hy0')

theorem value_div_scale (hx : x.IsFinite) (hy : y.IsFinite) (hx' : x'.IsFinite) (hy' : y'.IsFinite)
    (hy0 : y.value ≠ 0) (hxx : x'.value = 2 ^ j * x.value) (hyy : y'.value = 2 ^ k * y.value)
    (h : DivFits x y) (h' : DivFits x' y') : (x' / y').value = 2 ^ (j - k) * (x / y).value := by
  have hy0' : y'.value ≠ 0 := hyy ▸ mul_ne_zero (by positivity) hy0
  have hquot := rounds_div hx hy hy0
  have hquot' := rounds_div hx' hy' hy0'
  have e : x'.value / y'.value = 2 ^ (j - k) * (x.value / y.value) := by
    rw [hxx, hyy, zpow_sub₀ two_ne_zero]
    field_simp
  by_cases hx0 : x.value = 0
  · rw [e, hx0, zero_div, mul_zero] at hquot'
    rw [hx0, zero_div] at hquot
    rw [hquot.value_eq_zero, hquot'.value_eq_zero, mul_zero]
  · have hx0' : x'.value ≠ 0 := hxx ▸ mul_ne_zero (by positivity) hx0
    rw [e] at hquot'
    exact hquot.value_scale (h hx hy).1 ((h hx hy).2 hx0) hquot' (h' hx' hy').1
      ((h' hx' hy').2 hx0')

/-! ## Scaled numbers -/

/-- A number and its product with a power of two. What is not a finite number stays as it is. -/
inductive Scaled (k : ℤ) : Binary f → Binary f → Prop
  | finite {x x' : Binary f} (hx : x.IsFinite) (hx' : x'.IsFinite)
      (h : x'.value = 2 ^ k * x.value) : Scaled k x x'
  | same {x : Binary f} (hx : ¬ x.IsFinite) : Scaled k x x

/-- A finite number is below one infinity and above the other. -/
theorem lt_iff_of_not_isFinite (hx : x.IsFinite) (hy : ¬ y.IsFinite) :
    (x < y ↔ y.isNumber = true ∧ 0 < y.place) ∧ (y < x ↔ y.isNumber = true ∧ y.place < 0) := by
  cases hn : y.isNumber with
  | false => simp [lt_iff, hn]
  | true =>
    obtain ⟨s, rfl⟩ := exists_eq_signedInfinity hn hy
    obtain ⟨hlow, hup⟩ := abs_lt.1 hx.2
    have htop : (0 : Int) < f.top := by exact_mod_cast f.top_pos
    rw [lt_iff, lt_iff, place_signedInfinity, hx.1, hn]
    cases s with
    | false =>
      simp only [signFactor_false, true_and]
      omega
    | true =>
      simp only [signFactor_true, true_and]
      omega

namespace Scaled

protected theorem zero : Scaled k (0 : Binary f) 0 :=
  .finite (isFinite_number.2 f.top_pos.ne) (isFinite_number.2 f.top_pos.ne) (by simp)

protected theorem infinity : Scaled k (infinity : Binary f) infinity :=
  .same fun h => isFinite_number.1 h rfl

protected theorem refl (x : Binary f) : Scaled 0 x x := by
  by_cases hx : x.IsFinite
  · exact .finite hx hx (by simp)
  · exact .same hx

theorem isNumber_eq (h : Scaled k x x') : x'.isNumber = x.isNumber := by
  cases h with
  | finite hx hx' => rw [hx.1, hx'.1]
  | same => rfl

theorem isFinite_iff (h : Scaled k x x') : x'.IsFinite ↔ x.IsFinite := by
  cases h with
  | finite hx hx' => exact iff_of_true hx' hx
  | same => rfl

theorem value_eq (h : Scaled 0 x x') : x'.value = x.value := by
  cases h with
  | finite hx hx' h => rwa [zpow_zero, one_mul] at h
  | same => rfl

theorem of_value_eq (hx : x.isNumber = true) (hx' : x'.isNumber = true) (h : x'.value = x.value) :
    Scaled 0 x x' := by
  by_cases hfin : x.IsFinite
  · exact .finite hfin (isFinite_of_abs_lt hx' (h ▸ hfin.abs_value_lt)) (by rw [h]; simp)
  · have h0 : x.value ≠ 0 := by
      intro h0
      exact hfin (isFinite_of_abs_lt hx (by rw [h0, abs_zero]; linarith [f.four_lt_valueAt_top]))
    obtain rfl := eq_of_value_eq hx hx' h.symm h0
    exact .same hfin

protected theorem neg (h : Scaled k x x') : Scaled k (-x) (-x') := by
  cases h with
  | finite hx hx' h => exact .finite hx.neg hx'.neg (by rw [value_neg, value_neg, h, mul_neg])
  | same hx => exact .same fun h => hx (Binary.neg_neg x ▸ h.neg)

theorem symm (h : Scaled k x x') : Scaled (-k) x' x := by
  cases h with
  | finite hx hx' h =>
    refine .finite hx' hx ?_
    rw [h, zpow_neg, inv_mul_cancel_left₀ (by positivity)]
  | same hx => exact .same hx

/-! ### Order -/

protected theorem lt_iff (hx : Scaled k x x') (hy : Scaled k y y') : x' < y' ↔ x < y := by
  cases hx with
  | finite hx hx' hxx =>
    cases hy with
    | finite hy hy' hyy =>
      rw [lt_iff_value hx'.1 hy'.1, lt_iff_value hx.1 hy.1, hxx, hyy,
        mul_lt_mul_iff_right₀ (by positivity)]
    | same hy => rw [(lt_iff_of_not_isFinite hx' hy).1, (lt_iff_of_not_isFinite hx hy).1]
  | same hx =>
    cases hy with
    | finite hy hy' hyy => rw [(lt_iff_of_not_isFinite hy' hx).2, (lt_iff_of_not_isFinite hy hx).2]
    | same hy => rfl

protected theorem le_iff (hx : Scaled k x x') (hy : Scaled k y y') : x' ≤ y' ↔ x ≤ y := by
  have hle : ∀ {x y : Binary f}, x ≤ y ↔ x.isNumber = true ∧ y.isNumber = true ∧ ¬ y < x := by
    intro x y
    rw [le_iff, lt_iff, and_congr_right_iff]
    intro hx
    rw [and_congr_right_iff]
    intro hy
    simp [hx, hy]
  rw [hle, hle, hx.isNumber_eq, hy.isNumber_eq, hy.lt_iff hx]

theorem of_eq (h : Scaled j x x') (e : j = k) : Scaled k x x' := e ▸ h

theorem value_ne_zero (hbig : ¬ x.abs ≤ minPositive) (hx : x.IsFinite) : x.value ≠ 0 :=
  fun h0 => hbig (abs_le_minPositive_of_value_eq_zero hx.1 h0)

/-- What is clear of the threshold before and after is on the same side of it. -/
theorem still_iff (h : Scaled k x x') (hx : IsClear x) (hx' : IsClear x') :
    x'.abs ≤ minPositive ↔ x.abs ≤ minPositive := by
  cases h with
  | finite hxf hxf' h =>
    constructor
    · intro hle
      refine abs_le_minPositive_of_value_eq_zero hxf.1 ?_
      have h0 := hx' hle
      rw [h] at h0
      exact (mul_eq_zero.1 h0).resolve_left (by positivity)
    · intro hle
      refine abs_le_minPositive_of_value_eq_zero hxf'.1 ?_
      rw [h, hx hle, mul_zero]
  | same => rfl

/-- One of two numbers that is selected by a comparison, and the other one if either is not a
number. -/
theorem select {g : Binary f → Binary f → Binary f} {R : Binary f → Binary f → Prop}
    [∀ x y, Decidable (R x y)] (hnan : ∀ z, g nan z = z ∧ g z nan = z)
    (hg : ∀ {x y}, x.isNumber = true → y.isNumber = true → g x y = if R x y then y else x)
    (hx : Scaled k x x') (hy : Scaled k y y') (hR : R x' y' ↔ R x y) :
    Scaled k (g x y) (g x' y') := by
  cases hxn : x.isNumber with
  | false =>
    obtain rfl := eq_nan hxn
    obtain rfl := eq_nan (hx.isNumber_eq.trans hxn)
    rwa [(hnan y).1, (hnan y').1]
  | true =>
    cases hyn : y.isNumber with
    | false =>
      obtain rfl := eq_nan hyn
      obtain rfl := eq_nan (hy.isNumber_eq.trans hyn)
      rwa [(hnan x).2, (hnan x').2]
    | true =>
      rw [hg hxn hyn, hg (hx.isNumber_eq.trans hxn) (hy.isNumber_eq.trans hyn)]
      by_cases hsel : R x y
      · rwa [if_pos hsel, if_pos (hR.2 hsel)]
      · rwa [if_neg hsel, if_neg (mt hR.1 hsel)]

protected theorem max (hx : Scaled k x x') (hy : Scaled k y y') :
    Scaled k (Max.max x y) (Max.max x' y') :=
  select (fun z => ⟨by cases z <;> rfl, max_nan z⟩) max_eq hx hy (hx.lt_iff hy)

protected theorem min (hx : Scaled k x x') (hy : Scaled k y y') :
    Scaled k (Min.min x y) (Min.min x' y') :=
  select (fun z => ⟨by cases z <;> rfl, min_nan z⟩) min_eq hx hy (hy.lt_iff hx)

/-! ### Sums -/

protected theorem add (hx : Scaled k x x') (hy : Scaled k y y') (h : AddFits x y)
    (h' : AddFits x' y') : Scaled k (x + y) (x' + y') := by
  -- an infinity, or what is not a number, takes a finite number in
  have absorbs : ∀ {x y : Binary f}, x.IsFinite → ¬ y.IsFinite → x + y = y := by
    intro x y hx hy
    cases hyn : y.isNumber with
    | false =>
      obtain rfl := eq_nan hyn
      rw [add_nan]
    | true =>
      obtain ⟨s, rfl⟩ := exists_eq_signedInfinity hyn hy
      have hn := hx.isNumber_add hyn
      rw [Binary.add_comm] at hn ⊢
      exact signedInfinity_add hn
  cases hx with
  | finite hx hx' hxx =>
    cases hy with
    | finite hy hy' hyy =>
      exact .finite (h hx hy) (h' hx' hy')
        (value_add_scale hx hy hx' hy' hxx hyy (h hx hy) (h' hx' hy'))
    | same hy =>
      rw [absorbs hx hy, absorbs hx' hy]
      exact .same hy
  | same hx =>
    cases hy with
    | finite hy hy' hyy =>
      rw [Binary.add_comm, absorbs hy hx, Binary.add_comm, absorbs hy' hx]
      exact .same hx
    | same hy => exact .same fun h => hx (isFinite_of_add h).1

/-- Sums of the same terms are the same, if need be infinite. -/
theorem add_same (hx : Scaled 0 x x') (hy : Scaled 0 y y') : Scaled 0 (x + y) (x' + y') := by
  by_cases hfin : x.IsFinite ∧ y.IsFinite
  · have hsum := rounds_add hfin.1 hfin.2
    have hsum' := rounds_add (hx.isFinite_iff.2 hfin.1) (hy.isFinite_iff.2 hfin.2)
    rw [hx.value_eq, hy.value_eq] at hsum'
    exact .of_value_eq hsum.isNumber hsum'.isNumber (hsum'.value_unique hsum)
  · have hfin' : ¬ (x'.IsFinite ∧ y'.IsFinite) := by rwa [hx.isFinite_iff, hy.isFinite_iff]
    exact hx.add hy (fun h1 h2 => absurd ⟨h1, h2⟩ hfin) fun h1 h2 => absurd ⟨h1, h2⟩ hfin'

protected theorem sub (hx : Scaled k x x') (hy : Scaled k y y') (h : AddFits x (-y))
    (h' : AddFits x' (-y')) : Scaled k (x - y) (x' - y') := hx.add hy.neg h h'

/-! ### Products and quotients -/

/-- The sign of a finite number that is not zero decides the sign of an infinite result. -/
theorem decide_value_neg (s : Bool) {b : Nat} (hb : b ≤ f.top) (h0 : b ≠ 0) :
    (number s b hb).value ≠ 0 ∧ decide ((number s b hb).value < 0) = s := by
  have hpos : (0 : ℚ) < f.units b * f.unit :=
    mul_pos (by exact_mod_cast f.units_pos h0) f.unit_pos
  rw [value_number]
  cases s with
  | false =>
    rw [signFactor_false, Int.cast_one, one_mul]
    exact ⟨hpos.ne', decide_eq_false hpos.not_gt⟩
  | true =>
    rw [signFactor_true, Int.cast_neg, Int.cast_one, neg_one_mul]
    exact ⟨neg_ne_zero.2 hpos.ne', decide_eq_true (neg_lt_zero.2 hpos)⟩

theorem mul_signedInfinity_eq (hx : x.IsFinite) (s : Bool) : x * signedInfinity s =
    if x.value = 0 then nan else signedInfinity (s != decide (x.value < 0)) := by
  rw [Binary.mul_comm]
  cases x with
  | nan => cases hx.1
  | number t b hb =>
    by_cases h0 : b = 0
    · subst h0
      rw [if_pos (by simp [value_number])]
      change (signedInfinity s).mul (number t 0 hb) = nan
      simp [mul, signedInfinity]
    · obtain ⟨hne, hsign⟩ := decide_value_neg t hb h0
      rw [if_neg hne, hsign, signedInfinity_mul s t h0]

theorem signedInfinity_div_eq (hx : x.IsFinite) (hx0 : x.value ≠ 0) (s : Bool) :
    signedInfinity s / x = signedInfinity (s != decide (x.value < 0)) := by
  cases x with
  | nan => cases hx.1
  | number t b hb =>
    have h0 : b ≠ 0 := by
      rintro rfl
      exact hx0 (by simp [value_number])
    rw [(decide_value_neg t hb h0).2]
    change (signedInfinity s).div (number t b hb) = _
    simp [div, signedInfinity, isFinite_number.1 hx]

/-- What is scaled has the same sign. -/
theorem value_sign_iff (h : x'.value = 2 ^ k * x.value) :
    (x'.value = 0 ↔ x.value = 0) ∧ (x'.value < 0 ↔ x.value < 0) := by
  have hpow : (0 : ℚ) < 2 ^ k := by positivity
  rw [h]
  exact ⟨by simp [hpow.ne'], by rw [← not_le, ← not_le, mul_nonneg_iff_of_pos_left hpow]⟩

protected theorem mul (hx : Scaled j x x') (hy : Scaled k y y') (h : MulFits x y)
    (h' : MulFits x' y') : Scaled (j + k) (x * y) (x' * y') := by
  have hinf : ∀ {i : ℤ} {x x' y : Binary f}, x.IsFinite → x'.IsFinite →
      x'.value = 2 ^ i * x.value → ¬ y.IsFinite → Scaled (j + k) (x * y) (x' * y) := by
    intro i x x' y hx hx' hxx hy
    have hprod : x' * y = x * y := by
      cases hyn : y.isNumber with
      | false =>
        obtain rfl := eq_nan hyn
        rw [mul_nan, mul_nan]
      | true =>
        obtain ⟨s, rfl⟩ := exists_eq_signedInfinity hyn hy
        obtain ⟨hzero, hneg⟩ := value_sign_iff hxx
        rw [mul_signedInfinity_eq hx, mul_signedInfinity_eq hx']
        simp only [hzero, hneg]
    rw [hprod]
    exact .same fun h => hy (isFinite_of_mul h).2
  cases hx with
  | finite hx hx' hxx =>
    cases hy with
    | finite hy hy' hyy =>
      exact .finite (h hx hy).1 (h' hx' hy').1 (value_mul_scale hx hy hx' hy' hxx hyy h h')
    | same hy => exact hinf hx hx' hxx hy
  | same hx =>
    cases hy with
    | finite hy hy' hyy =>
      rw [Binary.mul_comm, Binary.mul_comm x]
      exact hinf hy hy' hyy hx
    | same hy => exact .same fun h => hx (isFinite_of_mul h).1

theorem div_signedInfinity (hx : x.IsFinite) (s : Bool) :
    ∃ t, x / signedInfinity s = signedZero t := by
  cases x with
  | nan => cases hx.1
  | number t b hb =>
    change ∃ u, (number t b hb).div (signedInfinity s) = signedZero u
    exact ⟨t != s, by simp [div, signedInfinity, isFinite_number.1 hx]⟩

/-- Quotients by zero are not looked at. -/
protected theorem div (hx : Scaled j x x') (hy : Scaled k y y') (hy0 : y.IsFinite → y.value ≠ 0)
    (h : DivFits x y) (h' : DivFits x' y') : Scaled (j - k) (x / y) (x' / y') := by
  cases hx with
  | finite hx hx' hxx =>
    cases hy with
    | finite hy hy' hyy =>
      exact .finite (h hx hy).1 (h' hx' hy').1
        (value_div_scale hx hy hx' hy' (hy0 hy) hxx hyy h h')
    | same hy =>
      cases hyn : y.isNumber with
      | false =>
        obtain rfl := eq_nan hyn
        rw [div_nan, div_nan]
        exact .same hy
      | true =>
        obtain ⟨s, rfl⟩ := exists_eq_signedInfinity hyn hy
        obtain ⟨t, ht⟩ := div_signedInfinity hx s
        obtain ⟨t', ht'⟩ := div_signedInfinity hx' s
        rw [ht, ht']
        have hfin : ∀ u, (signedZero u : Binary f).IsFinite := fun u =>
          isFinite_number.2 f.top_pos.ne
        exact .finite (hfin t) (hfin t') (by simp [signedZero, value_number])
  | same hx =>
    cases hxn : x.isNumber with
    | false =>
      obtain rfl := eq_nan hxn
      rw [nan_div, nan_div]
      exact .same hx
    | true =>
      obtain ⟨s, rfl⟩ := exists_eq_signedInfinity hxn hx
      cases hy with
      | finite hy hy' hyy =>
        obtain ⟨hzero, hneg⟩ := value_sign_iff hyy
        rw [signedInfinity_div_eq hy (hy0 hy), signedInfinity_div_eq hy' (mt hzero.1 (hy0 hy))]
        simp only [hneg]
        exact .same fun h => isFinite_number.1 h rfl
      | same hy =>
        cases hyn : y.isNumber with
        | false =>
          obtain rfl := eq_nan hyn
          rw [div_nan]
          exact .same hy
        | true =>
          obtain ⟨t, rfl⟩ := exists_eq_signedInfinity hyn hy
          rw [signedInfinity_div_signedInfinity]
          exact .same fun h => Bool.false_ne_true h.1

end Scaled

/-! ### Roots -/

theorem Rounds.of_between {b c : ℚ} (ha : Rounds a z) (hb : Rounds b z) (hac : a ≤ c)
    (hcb : c ≤ b) : Rounds c z where
  isNumber := ha.isNumber
  nearest := ha.nearest.of_le_of_le hb.nearest hac hcb

/-- Roots are scaled by the root of the factor. -/
theorem RoundsRoot.value_scale (h : RoundsRoot a z) (h' : RoundsRoot (2 ^ k * 2 ^ k * a) z')
    (hz : z.IsFinite) (hbig : ¬ z.abs ≤ minPositive) (hz' : z'.IsFinite)
    (hbig' : ¬ z'.abs ≤ minPositive) : z'.value = 2 ^ k * z.value := by
  obtain ⟨l, hl0, hla, hl⟩ := h.lower
  obtain ⟨u, hu0, hau, hu⟩ := h.upper
  obtain ⟨l', hl0', hla', hl'⟩ := h'.lower
  obtain ⟨u', hu0', hau', hu'⟩ := h'.upper
  have hpow : (0 : ℚ) < 2 ^ k := by positivity
  -- a rational number that is rounded like the root, and whose multiple is rounded like the other
  set m : ℚ := Max.max l (l' / 2 ^ k) with hm
  have hm0 : 0 ≤ m := hl0.trans (le_max_left _ _)
  have hmm : m * m ≤ a := by
    rcases max_choice l (l' / 2 ^ k) with e | e
    · rwa [hm, e]
    · rw [hm, e, div_mul_div_comm, div_le_iff₀' (by positivity)]
      exact hla'
  have hmu : m ≤ u := by
    rw [mul_self_le_mul_self_iff hm0 hu0]
    exact hmm.trans hau
  have hmu' : 2 ^ k * m ≤ u' := by
    rw [mul_self_le_mul_self_iff (by positivity) hu0']
    refine le_trans ?_ hau'
    rw [mul_mul_mul_comm]
    exact mul_le_mul_of_nonneg_left hmm (by positivity)
  have hml' : l' ≤ 2 ^ k * m := by
    rw [← div_le_iff₀' hpow]
    exact le_max_right _ _
  exact (hl.of_between hu (le_max_left _ _) hmu).value_scale hz hbig
    (hl'.of_between hu' hml' hmu') hz' hbig'

/-- The root of a finite number is finite, and is only small if it is zero. -/
theorem sqrt_spec (hx : x.IsFinite) (h0 : 0 ≤ x) :
    x.sqrt.IsFinite ∧ (x.value ≠ 0 → ¬ x.sqrt.abs ≤ minPositive) := by
  have hroot := roundsRoot_sqrt hx h0
  have hx0 := (nonneg_iff.1 h0).2
  constructor
  · -- the root is below the number or below one
    have hle : ∀ {y : Binary f}, y.IsFinite → 0 ≤ y.value → x.value ≤ y.value * y.value →
        x.sqrt.IsFinite := by
      intro y hy hy0 hle
      have hroot' : RoundsRoot (y.value * y.value) y := .of_rounds hy0 (.self hy.1)
      refine isFinite_of_abs_lt hroot.isNumber ?_
      rw [abs_of_nonneg hroot.value_nonneg]
      exact (hroot.value_le_value hroot' hle).trans_lt
        (lt_of_le_of_lt (le_abs_self _) hy.abs_value_lt)
    rcases le_total x.value 1 with h1 | h1
    · exact hle isFinite_one (by simp) (by simpa using h1)
    · exact hle hx hx0 (le_mul_of_one_le_left hx0 h1)
  · intro hne
    have hunit : (2 ^ (2 * (f.exponentBound - 3)))⁻¹ ≤ x.value := by
      have hle := (isMultiple_value hx.1).le_of_pos (lt_of_le_of_ne hx0 (Ne.symm hne))
      rw [pow_zero, one_mul] at hle
      refine le_trans ?_ hle
      rw [← zpow_natCast, ← zpow_neg, Format.unit]
      exact zpow_le_zpow_right₀ one_le_two (by cases f <;> decide)
    have hle := le_value_sqrt hx h0 (j := f.exponentBound - 3) (by cases f <;> decide) hunit
    rw [Binary.not_le (by simpa using hroot.isNumber) rfl,
      lt_iff_value rfl (by simpa using hroot.isNumber), value_abs, value_minPositive]
    refine lt_of_lt_of_le ?_ (hle.trans (le_abs_self _))
    rw [← zpow_natCast, ← zpow_neg]
    exact zpow_lt_zpow_right₀ one_lt_two (by cases f <;> decide)

theorem sqrt_of_value_eq_zero (hx : x.isNumber = true) (h0 : x.value = 0) : x.sqrt = x := by
  cases x with
  | nan => cases hx
  | number s r hr =>
    have hr0 : r = 0 := by
      by_contra hne
      exact (Scaled.decide_value_neg s hr hne).1 h0
    simp [sqrt, hr0]

/-- There is no root of what is below zero. -/
theorem sqrt_of_not_nonneg (h : ¬ 0 ≤ x) : x.sqrt = nan := by
  cases x with
  | nan => rfl
  | number s r hr =>
    rw [le_iff, place_zero, place_number] at h
    cases s with
    | false => exact absurd ⟨isNumber_zero, rfl, by simp⟩ h
    | true =>
      have hr0 : r ≠ 0 := by
        rintro rfl
        exact h ⟨isNumber_zero, rfl, by simp⟩
      simp [sqrt, hr0]

protected theorem Scaled.sqrt (h : Scaled (k + k) x x') : Scaled k x.sqrt x'.sqrt := by
  have hnonneg : 0 ≤ x' ↔ 0 ≤ x := Scaled.zero.le_iff h
  by_cases h0 : 0 ≤ x
  · cases h with
    | finite hx hx' hxx =>
      have h0' := hnonneg.2 h0
      obtain ⟨hfin, hbig⟩ := sqrt_spec hx h0
      obtain ⟨hfin', hbig'⟩ := sqrt_spec hx' h0'
      refine .finite hfin hfin' ?_
      by_cases hz : x.value = 0
      · have hz' : x'.value = 0 := by rw [hxx, hz, mul_zero]
        rw [sqrt_of_value_eq_zero hx.1 hz, sqrt_of_value_eq_zero hx'.1 hz', hz, hz', mul_zero]
      · have hz' : x'.value ≠ 0 := hxx ▸ mul_ne_zero (by positivity) hz
        have hroot' := roundsRoot_sqrt hx' h0'
        rw [hxx, zpow_add₀ two_ne_zero] at hroot'
        exact (roundsRoot_sqrt hx h0).value_scale hroot' hfin (hbig hz) hfin' (hbig' hz')
    | same hx =>
      rcases isFinite_or_infinite_of_nonneg h0 with hfin | rfl
      · exact absurd hfin hx
      · rw [sqrt_signedInfinity]
        exact .same hx
  · rw [sqrt_of_not_nonneg h0, sqrt_of_not_nonneg (mt hnonneg.1 h0)]
    exact .same fun h => Bool.false_ne_true h.1

end Binary

end HitTest
