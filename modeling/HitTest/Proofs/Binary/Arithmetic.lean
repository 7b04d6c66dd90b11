import HitTest.Proofs.Binary.Value
import Mathlib.Tactic.FieldSimp

/-!
# Arithmetic rounds the exact result

Each operation on finite numbers gives a number nearest to the exact result. For sums and products
this is how they are computed; a quotient is computed from a few more digits than are kept and one
that stands for all the rest, and no midpoint tells that from the exact quotient.
-/

namespace HitTest

namespace Binary

variable {f g : Format} {x y : Binary f}

/-! ## Sums and differences -/

theorem rounds_addOpposite (s : Bool) (a b : Nat) (i : Nat) :
    Rounds (signFactor s * ((a : ℚ) - b) * 2 ^ i * f.unit)
      (addOpposite s a b i : Binary f) := by
  unfold addOpposite
  split
  · rename_i h
    have := rounds_nearest (f := f) s (a - b) i
    rw [Nat.cast_sub h.le, zpow_natCast] at this
    convert this using 1
    ring
  · split
    · rename_i h
      have := rounds_nearest (f := f) (!s) (b - a) i
      rw [Nat.cast_sub h.le, zpow_natCast, signFactor_not] at this
      convert this using 1
      push_cast; ring
    · obtain rfl : a = b := by omega
      rw [sub_self, mul_zero, zero_mul, zero_mul]
      have := Rounds.self (f := f) (x := 0) rfl
      rwa [value_zero] at this

/-- Two magnitudes brought to one scale. -/
theorem rounds_addAligned (s t : Bool) (a b : Nat) (i : Nat) :
    Rounds ((signFactor s * a + signFactor t * b) * 2 ^ i * f.unit)
      (if s = t then nearest s (a + b) i else addOpposite s a b i : Binary f) := by
  split
  · rename_i h
    have := rounds_nearest (f := f) s (a + b) i
    rw [zpow_natCast] at this
    convert this using 1
    rw [← h]; push_cast; ring
  · rename_i h
    have e : t = !s := by cases s <;> cases t <;> simp_all
    have := rounds_addOpposite (f := f) s a b i
    convert this using 1
    rw [e, signFactor_not]; push_cast; ring

theorem rounds_addFinite (s t : Bool) (a b : Nat) :
    Rounds ((signFactor s * f.units a + signFactor t * f.units b) * f.unit)
      (addFinite s a t b : Binary f) := by
  unfold addFinite
  dsimp only
  -- the significand on the coarser scale is shifted to the finer one
  have shifted : ∀ {i j m : Nat}, i ≤ j → ((m <<< (j - i) : Nat) : ℚ) * 2 ^ i = m * 2 ^ j :=
    fun {i j m} h => by
      rw [Nat.shiftLeft_eq, Nat.cast_mul, Nat.cast_pow, Nat.cast_ofNat, mul_assoc, ← pow_add,
        Nat.sub_add_cancel h]
  split
  · rename_i h
    have := rounds_addAligned (f := f) s t (f.significand a)
      (f.significand b <<< (f.scale b - f.scale a)) (f.scale a)
    convert this using 1
    rw [f.units_eq a, f.units_eq b]
    simp only [Nat.cast_mul, Nat.cast_pow, Nat.cast_ofNat]
    linear_combination -(signFactor t * f.unit) * shifted (m := f.significand b) h
  · rename_i h
    have := rounds_addAligned (f := f) s t (f.significand a <<< (f.scale a - f.scale b))
      (f.significand b) (f.scale b)
    convert this using 1
    rw [f.units_eq a, f.units_eq b]
    simp only [Nat.cast_mul, Nat.cast_pow, Nat.cast_ofNat]
    linear_combination
      -(signFactor s * f.unit) * shifted (m := f.significand a) (Nat.le_of_not_le h)

theorem rounds_add (hx : x.IsFinite) (hy : y.IsFinite) : Rounds (x.value + y.value) (x + y) := by
  change Rounds _ (x.add y)
  cases x with
  | nan => cases hx.1
  | number s a ha =>
    cases y with
    | nan => cases hy.1
    | number t b hb =>
      have e : (number s a ha).add (number t b hb) = addFinite s a t b := by
        simp only [add, if_neg (isFinite_number.1 hx), if_neg (isFinite_number.1 hy)]
      rw [e, value_number, value_number]
      convert rounds_addFinite (f := f) s t a b using 1
      ring

theorem rounds_sub (hx : x.IsFinite) (hy : y.IsFinite) : Rounds (x.value - y.value) (x - y) := by
  have := rounds_add hx hy.neg
  rwa [value_neg, ← sub_eq_add_neg] at this

/-! ## Products -/

theorem rounds_mul (hx : x.IsFinite) (hy : y.IsFinite) : Rounds (x.value * y.value) (x * y) := by
  change Rounds _ (x.mul y)
  cases x with
  | nan => cases hx.1
  | number s a ha =>
    cases y with
    | nan => cases hy.1
    | number t b hb =>
      have hfin : ¬ (a = f.top ∨ b = f.top) :=
        not_or.2 ⟨isFinite_number.1 hx, isFinite_number.1 hy⟩
      have e : (number s a ha).mul (number t b hb) = nearest (s != t)
          (f.significand a * f.significand b) (f.scale a + f.scale b + f.unitExponent) := by
        simp only [mul, if_neg hfin]
      rw [e, value_number, value_number, f.units_eq, f.units_eq]
      convert rounds_nearest (f := f) (s != t) _ _ using 1
      rw [signFactor_bne, zpow_add₀ two_ne_zero, zpow_add₀ two_ne_zero, zpow_natCast, zpow_natCast]
      simp only [Format.unit]
      push_cast; ring

/-! ## Quotients -/

/-- The last digit stands for any rest. -/
theorem rounds_withRest {q : Nat} (hq : 2 * f.leading ≤ q) (s : Bool) (t : Int) {z : ℚ}
    (hlow : q ≤ z) (hup : z < q + 1) (rest : Bool) (hrest : rest = true ↔ q ≠ z) :
    Rounds (signFactor s * (z * 2 ^ t * f.unit))
      (nearest s (withRest q rest) (t - 1) : Binary f) := by
  have half : (2 : ℚ) ^ t = 2 * 2 ^ (t - 1) := by
    rw [← zpow_one_add₀ two_ne_zero]; congr 1; omega
  have h := f.nearest_rankNearest (withRest q rest) (t - 1)
  have key : f.Nearest (z * 2 ^ t * f.unit) (f.rankNearest (withRest q rest) (t - 1)) := by
    cases rest with
    | false =>
      have hz : (q : ℚ) = z := by simpa using hrest
      convert h using 1
      rw [← hz, half, withRest, Bool.toNat_false]
      push_cast; ring
    | true =>
      have hne : (q : ℚ) ≠ z := by simpa using hrest
      refine Format.Nearest.of_between hq (y := q + 1 / 2) ⟨by linarith, by linarith⟩
        ⟨lt_of_le_of_ne hlow hne, hup⟩ ?_
      convert h using 1
      rw [half, withRest, Bool.toNat_true]
      push_cast; ring
  refine ⟨rfl, ?_⟩
  rw [nearest, place_number]
  cases s with
  | false => simpa using key
  | true => simpa using key.neg

/-- The shift before the division leaves a quotient of more digits than a full significand. -/
theorem leading_le_quotient (f : Format) {m d : Nat} (hm : 0 < m) (hd : 0 < d)
    (hm' : m < 2 * f.leading) :
    2 * f.leading ≤ (m <<< (f.fractionBits + 3 + d.log2 - m.log2)) / d := by
  have hlog : m.log2 < f.fractionBits + 1 := by
    refine (Nat.log2_lt hm.ne').2 ?_
    rwa [pow_succ, ← f.leading_eq_pow, mul_comm]
  have hd' : d < 2 ^ (d.log2 + 1) := Nat.lt_log2_self
  have hm2 : 2 ^ m.log2 ≤ m := Nat.log2_self_le hm.ne'
  rw [Nat.le_div_iff_mul_le hd, Nat.shiftLeft_eq]
  calc 2 * f.leading * d ≤ 2 * f.leading * 2 ^ (d.log2 + 1) := Nat.mul_le_mul_left _ hd'.le
    _ = 2 ^ (f.fractionBits + 2 + d.log2) := by
        rw [f.leading_eq_pow]; ring
    _ ≤ 2 ^ (m.log2 + (f.fractionBits + 3 + d.log2 - m.log2)) :=
        Nat.pow_le_pow_right (by decide) (by omega)
    _ = 2 ^ m.log2 * 2 ^ (f.fractionBits + 3 + d.log2 - m.log2) := pow_add _ _ _
    _ ≤ m * 2 ^ (f.fractionBits + 3 + d.log2 - m.log2) := Nat.mul_le_mul_right _ hm2

theorem significand_pos (f : Format) {r : Nat} (h : r ≠ 0) : 0 < f.significand r := by
  have := f.leading_pos
  unfold Format.significand
  split <;> omega

theorem rounds_divFinite (s : Bool) {a b : Nat} (ha : a ≠ 0) (hb : b ≠ 0) :
    Rounds (signFactor s * ((f.units a : ℚ) / f.units b)) (divFinite s a b : Binary f) := by
  unfold divFinite
  dsimp only
  have hm := significand_pos f ha
  have hd := significand_pos f hb
  have hq := leading_le_quotient f hm hd (f.significand_lt a)
  rw [f.units_eq, f.units_eq]
  generalize f.fractionBits + 3 + (f.significand b).log2 - (f.significand a).log2 = up at *
  generalize f.significand a = m at *
  generalize f.significand b = d at *
  generalize hn : m <<< up = n at *
  have hd' : (0 : ℚ) < d := by exact_mod_cast hd
  have hdiv : (n : ℚ) = d * (n / d : Nat) + (n % d : Nat) := by
    exact_mod_cast (Nat.div_add_mod n d).symm
  have hmod : ((n % d : Nat) : ℚ) < d := by exact_mod_cast Nat.mod_lt n hd
  convert rounds_withRest (f := f) hq s (f.scale a - f.scale b - f.unitExponent - up)
    (z := n / d) ?_ ?_ _ ?_ using 1
  · rw [← hn, Nat.shiftLeft_eq, Format.unit, zpow_sub₀ two_ne_zero, zpow_sub₀ two_ne_zero,
      zpow_sub₀ two_ne_zero, zpow_natCast, zpow_natCast, zpow_natCast]
    have := zpow_ne_zero f.unitExponent (two_ne_zero : (2 : ℚ) ≠ 0)
    push_cast
    field_simp
  · rw [le_div_iff₀ hd']
    have : (0 : ℚ) ≤ (n % d : Nat) := by positivity
    linarith
  · rw [div_lt_iff₀ hd']
    linarith
  · rw [decide_eq_true_iff, not_iff_not, eq_div_iff hd'.ne', hdiv]
    rw [mul_comm, left_eq_add, Nat.cast_eq_zero]

theorem rounds_div (hx : x.IsFinite) (hy : y.IsFinite) (h0 : y.value ≠ 0) :
    Rounds (x.value / y.value) (x / y) := by
  change Rounds _ (x.div y)
  cases x with
  | nan => cases hx.1
  | number s a ha =>
    cases y with
    | nan => cases hy.1
    | number t b hb =>
      have hb0 : b ≠ 0 := by
        rintro rfl
        exact h0 (by simp [value_number])
      simp only [div, if_neg (isFinite_number.1 hx), if_neg (isFinite_number.1 hy), if_neg hb0]
      rw [value_number, value_number]
      split
      · rename_i h
        subst h
        rw [Format.units_zero, Nat.cast_zero, zero_mul, mul_zero, zero_div]
        refine ⟨rfl, ?_⟩
        rw [signedZero, place_number, Nat.cast_zero, mul_zero]
        exact .zero
      · rename_i ha0
        convert rounds_divFinite (f := f) (s != t) ha0 hb0 using 1
        have hu := f.unit_pos.ne'
        rw [signFactor_bne]
        cases s <;> cases t <;> simp <;> field_simp

/-! ## Conversion -/

theorem rounds_convert (g : Format) (hx : x.IsFinite) : Rounds x.value (x.convert g) := by
  cases x with
  | nan => cases hx.1
  | number s a ha =>
    simp only [convert, if_neg (isFinite_number.1 hx)]
    rw [value_number, f.units_eq]
    convert rounds_nearest (f := g) s _ _ using 1
    rw [zpow_sub₀ two_ne_zero, zpow_add₀ two_ne_zero, zpow_natCast]
    have := zpow_ne_zero g.unitExponent (two_ne_zero : (2 : ℚ) ≠ 0)
    simp only [Format.unit]
    push_cast
    field_simp

end Binary

end HitTest
