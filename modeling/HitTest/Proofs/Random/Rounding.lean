import HitTest.Proofs.Binary.FixedPoint
import HitTest.Proofs.Random.UnitDraw
import HitTest.Proofs.Trial.Drawn

/-!
# Rounding of drawn scalars (`random_scalar`)

A word is read as a multiple of `2 ^ -53` below one, in the order of the words. In 64 bits that is
exact. In 32 bits it is rounded to nearest, ties to even: the order is kept, nothing but zero
becomes zero, and what is not below the midpoint before one becomes one. So twice a drawn scalar is
a radius, whatever the source.
-/

namespace HitTest

/-! ## Rounding to one -/

namespace Binary

variable {f : Format} {z : Binary f} {a : ℚ}

/-- How often the least positive number is doubled to reach the step between the numbers before
one. -/
def stepsToOne (f : Format) : Nat := (-(f.fractionBits : Int) - 1 - f.unitExponent).toNat

theorem two_pow_stepsToOne (f : Format) :
    (2 : ℚ) ^ stepsToOne f * f.unit = 2 ^ (-(f.fractionBits : Int) - 1) :=
  (f.zpow_eq_unit (by cases f <;> decide)).symm

theorem leading_steps_to_one (f : Format) :
    ((2 * f.leading : Nat) : ℚ) * 2 ^ stepsToOne f * f.unit = 1 := by
  rw [mul_assoc, two_pow_stepsToOne, f.leading_eq_pow]
  push_cast
  rw [← zpow_natCast, ← zpow_one_add₀ two_ne_zero, ← zpow_add₀ two_ne_zero]
  convert zpow_zero (2 : ℚ) using 2
  ring

theorem place_one :
    (1 : Binary f).place = ((stepsToOne f * f.leading + 2 * f.leading : Nat) : Int) := by
  refine f.valueAt_strictMono.injective ?_
  rw [f.valueAt_steps le_rfl (.inr (by omega)), leading_steps_to_one]
  exact value_one

theorem even_place_one : Even (1 : Binary f).place := by
  rw [place_one, Int.even_coe_nat]
  exact (f.even_leading.mul_left _).add (even_two_mul _)

/-- The midpoint before one is half a step away. -/
theorem midpoint_before_one :
    f.midpoint ((1 : Binary f).place - 1) = 1 - 2 ^ (-(f.fractionBits : Int) - 2) := by
  have hL := f.leading_pos
  have hplace : (1 : Binary f).place - 1 =
      ((stepsToOne f * f.leading + (2 * f.leading - 1) : Nat) : Int) := by
    rw [place_one]
    omega
  have hstep : (2 : ℚ) ^ (-(f.fractionBits : Int) - 2) = 2 ^ stepsToOne f * f.unit / 2 := by
    rw [two_pow_stepsToOne, div_eq_mul_inv, ← zpow_sub_one₀ two_ne_zero, sub_sub, one_add_one_eq_two]
  have hone := leading_steps_to_one f
  rw [hplace, f.midpoint_steps (by omega) (.inr (by omega)), hstep, Nat.cast_sub (by omega)]
  linarith

/-- What is rounded to one or above is not below the midpoint before one. -/
theorem Rounds.one_le_value_iff (h : Rounds a z) :
    1 ≤ z.value ↔ 1 - 2 ^ (-(f.fractionBits : Int) - 2) ≤ a := by
  have hone := (abs_lt.1 (isFinite_one (f := f)).2)
  rw [← midpoint_before_one, ← h.nearest.le_iff_midpoint_le hone.1 hone.2.le even_place_one,
    ← f.valueAt_strictMono.le_iff_le]
  change _ ↔ (1 : Binary f).value ≤ z.value
  rw [value_one]

end Binary

/-! ## What words are read as -/

theorem unitValue_mono {word word' : UInt64} (h : word ≤ word') :
    unitValue word ≤ unitValue word' := by
  have hbits : (word >>> 11).toNat ≤ (word' >>> 11).toNat := by
    rw [UInt64.toNat_shiftRight, UInt64.toNat_shiftRight, Nat.shiftRight_eq_div_pow,
      Nat.shiftRight_eq_div_pow]
    exact Nat.div_le_div_right (UInt64.le_iff_toNat_le.1 h)
  exact mul_le_mul_of_nonneg_right (by exact_mod_cast hbits) (by positivity)

theorem onGrid_unitValue (word : UInt64) : OnGrid (-53) (unitValue word) :=
  ⟨(word >>> 11).toNat, by rw [unitValue, Int.cast_natCast]⟩

namespace Binary

variable {f : Format} {word word' : UInt64}

theorem value_ofWord_double (word : UInt64) : (ofWord .double word).value = unitValue word := by
  obtain ⟨hfin, hv⟩ := value_unitFraction word
  have h : Rounds (unitFraction word).value (ofWord .double word) := rounds_convert .double hfin
  rw [(h.of_value hfin).2, hv, unitValue]

/-- Greater words are not read as less. -/
theorem ofWord_mono (h : word ≤ word') : ofWord f word ≤ ofWord f word' := by
  rw [le_iff_value (isDraw_ofWord f word).isNumber (isDraw_ofWord f word').isNumber]
  exact (rounds_ofWord f word).value_le_value (rounds_ofWord f word') (unitValue_mono h)

/-- Rounding is so fine near zero that nothing is lost there. -/
theorem unitValue_eq_zero_of_value_ofWord (h : (ofWord f word).value = 0) : unitValue word = 0 := by
  by_contra hne
  have hspan : f.Spans (-53) (-53) := by
    cases f <;> exact ⟨by decide, le_rfl, by decide⟩
  have hle := (rounds_ofWord f word).zpow_le_abs hspan ((onGrid_unitValue word).le_abs hne)
  rw [h, abs_zero] at hle
  exact absurd hle (not_le.2 (by positivity))

theorem onGrid_ofWord (f : Format) (word : UInt64) : OnGrid (-53) (ofWord f word).value :=
  (rounds_ofWord f word).onGrid (isDraw_ofWord f word).isFinite (by cases f <;> decide)
    (onGrid_unitValue word)

/-- In 32 bits the greatest words are read as one. -/
theorem ofWord_single_eq_one_iff (word : UInt64) :
    ofWord .single word = 1 ↔ 2 ^ 53 - 2 ^ 28 ≤ (word >>> 11).toNat := by
  have hdraw := isDraw_ofWord .single word
  have hone : ofWord .single word = 1 ↔ 1 ≤ (ofWord .single word).value := by
    constructor
    · intro h
      rw [h, value_one]
    · intro h
      have hv : (ofWord .single word).value = (1 : Binary .single).value := by
        rw [value_one]
        exact le_antisymm hdraw.le_one h
      refine eq_of_value_eq hdraw.isNumber rfl hv ?_
      rw [hv, value_one]
      exact one_ne_zero
  have hscale : (1 : ℚ) - 2 ^ (-(Format.single.fractionBits : Int) - 2) =
      ((2 ^ 53 - 2 ^ 28 : Nat) : ℚ) * 2 ^ (-53 : Int) := by
    norm_num [Format.fractionBits]
  rw [hone, (rounds_ofWord .single word).one_le_value_iff, hscale, unitValue,
    mul_le_mul_iff_left₀ (by positivity), Nat.cast_le]

/-! ## The draw -/

variable {G : Type} [WordSource G] {tries : Nat}

theorem scalar_run_ofWord (f : Format) (g : G) : (Draw.scalar : Draw G (Binary f) (Binary f)).run g =
    .ok (ofWord f (WordSource.next g).1, (WordSource.next g).2) := rfl

/-- No radius that is drawn is refused. -/
theorem draw_ne_badRadius (g : G) (e : Sphere.BadRadius (Binary f)) :
    (SphereLine.draw tries : Draw G (Binary f) (SphereLine (Binary f))).run g ≠
      .error (.badRadius e) := by
  intro h
  have hyields : Draw.Yields (fun _ : G => True) (IsDraw (f := f)) :=
    yields_isDraw fun _ _ => trivial
  have herror := (SphereLine.draw_ensures hyields fun _ hx => hx.two_mul_nonneg).of_error trivial h
  cases herror

/-- What a word is read as by a draw (`random_scalar`). In 64 bits it is the multiple of `2 ^ -53`
below one that the leading 53 bits count. In 32 bits that is rounded, to a multiple of `2 ^ -53`
from zero to one again: to zero only from zero, and to one from the midpoint before it on. Both keep
the order of the words. Twice a drawn scalar is not below zero, so a sphere of that radius can
always be drawn. -/
theorem scalar_rounded :
    (∀ (G : Type) [WordSource G] (f : Format) (g : G),
      (Draw.scalar : Draw G (Binary f) (Binary f)).run g =
        .ok (ofWord f (WordSource.next g).1, (WordSource.next g).2)) ∧
    (∀ word, (ofWord .double word).IsFinite ∧
      (ofWord .double word).value = (word >>> 11).toNat * 2 ^ (-53 : Int) ∧
      0 ≤ (ofWord .double word).value ∧ (ofWord .double word).value < 1) ∧
    (∀ word, Rounds (ofWord .double word).value (ofWord .single word) ∧
      0 ≤ (ofWord .single word).value ∧ (ofWord .single word).value ≤ 1 ∧
      ((ofWord .single word).value = 0 → (ofWord .double word).value = 0) ∧
      (∃ n : Int, (ofWord .single word).value = n * 2 ^ (-53 : Int)) ∧
      (ofWord .single word = 1 ↔ 2 ^ 53 - 2 ^ 28 ≤ (word >>> 11).toNat)) ∧
    (∀ f word word', word ≤ word' → ofWord f word ≤ ofWord f word') ∧
    (∀ f word, (Scalar.two * ofWord f word).isNumber = true ∧ 0 ≤ Scalar.two * ofWord f word) ∧
    ∀ (G : Type) [WordSource G] (f : Format) (g : G) (tries : Nat) (e : Sphere.BadRadius (Binary f)),
      (SphereLine.draw tries : Draw G (Binary f) (SphereLine (Binary f))).run g ≠
        .error (.badRadius e) := by
  refine ⟨fun G _ f g => scalar_run_ofWord f g, fun word => ?_, fun word => ?_,
    fun f word word' h => ofWord_mono h, fun f word => ?_,
    fun G _ f g tries e => draw_ne_badRadius g e⟩
  · rw [value_ofWord_double]
    exact ⟨(isDraw_ofWord .double word).isFinite, rfl, unitValue_nonneg word, unitValue_lt_one word⟩
  · have hdraw := isDraw_ofWord .single word
    rw [value_ofWord_double]
    exact ⟨rounds_ofWord .single word, hdraw.nonneg, hdraw.le_one,
      unitValue_eq_zero_of_value_ofWord, onGrid_ofWord .single word, ofWord_single_eq_one_iff word⟩
  · have hradius := (isDraw_ofWord f word).two_mul_nonneg
    exact ⟨isNumber_right hradius, hradius⟩

/-- The least word that is read as one in 32 bits is on the midpoint, and the one before it is not.
The greatest word is read as less than one in 64 bits. -/
theorem scalar_rounded_midpoint :
    ofWord .single 0xffffff8000000000 = 1 ∧ ofWord .single 0xffffff7fffffffff ≠ 1 ∧
      ofWord .single 0xffffff7fffffffff ≤ ofWord .single 0xffffff8000000000 ∧
        (ofWord .double 0xffffffffffffffff).value < 1 := by
  obtain ⟨-, hdouble, hsingle, hmono, -⟩ := scalar_rounded
  have hone : ∀ word, ofWord .single word = 1 ↔ 2 ^ 53 - 2 ^ 28 ≤ (word >>> 11).toNat :=
    fun word => (hsingle word).2.2.2.2.2
  refine ⟨(hone _).2 (by decide), ?_, hmono _ _ _ (by decide), (hdouble _).2.2.2⟩
  rw [Ne, hone]
  decide

end Binary

end HitTest
