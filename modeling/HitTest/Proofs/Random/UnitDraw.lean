import HitTest.Proofs.Binary.Multiple
import HitTest.Proofs.Binary.Sign
import HitTest.Proofs.Random.Ensures

/-!
# Drawn scalars

Of a word the leading 53 bits are read as a multiple of `2 ^ -53` below one. That is exact in 64
bits; in 32 bits it is rounded, and stays between zero and one and a multiple of `2 ^ -53`.
-/

namespace HitTest

namespace Format

/-- How many doublings take the least positive number to `2 ^ -53`. -/
def drawScale (f : Format) : Nat := (-53 - f.unitExponent).toNat

theorem two_zpow_drawScale (f : Format) : (2 : ℚ) ^ (-53 : Int) = 2 ^ f.drawScale * f.unit :=
  f.zpow_eq_unit (by cases f <;> decide)

theorem one_le_drawScale (f : Format) : 1 ≤ f.drawScale := by cases f <;> decide

end Format

namespace Binary

variable {f : Format} {x y : Binary f}

/-- What the next scalar of a source of words can be. -/
structure IsDraw (x : Binary f) : Prop where
  isNumber : x.isNumber = true
  nonneg : 0 ≤ x.value
  le_one : x.value ≤ 1
  multiple : f.IsMultiple f.drawScale x.value

namespace IsDraw

theorem isFinite (h : IsDraw x) : x.IsFinite :=
  isFinite_of_abs_le_four h.isNumber (by rw [abs_of_nonneg h.nonneg]; linarith [h.le_one])

/-- Different draws are so far apart that their difference is far from being rounded to zero. -/
theorem gap (hx : IsDraw x) (hy : IsDraw y) (h : x.value < y.value) :
    x.value + 2 * f.unit ≤ y.value := by
  have hgap := (hy.multiple.sub hx.multiple).le_of_pos (sub_pos.2 h)
  have hpow : (2 : ℚ) ^ 1 ≤ 2 ^ f.drawScale := pow_le_pow_right₀ one_le_two f.one_le_drawScale
  have := f.unit_pos
  nlinarith

/-- The lesser of two draws is one of them. -/
theorem min (hx : IsDraw x) (hy : IsDraw y) : IsDraw (Min.min x y) := by
  rw [min_eq hx.isNumber hy.isNumber]; split <;> assumption

theorem max (hx : IsDraw x) (hy : IsDraw y) : IsDraw (Max.max x y) := by
  rw [max_eq hx.isNumber hy.isNumber]; split <;> assumption

/-- Twice a drawn scalar is not below zero. -/
theorem two_mul_nonneg (hx : IsDraw x) : 0 ≤ Scalar.two * x := by
  have hmul := rounds_mul isFinite_two hx.isFinite
  rw [value_two] at hmul
  exact nonneg_iff.2 ⟨hmul.isNumber, hmul.value_nonneg (mul_nonneg two_pos.le hx.nonneg)⟩

end IsDraw

end Binary

/-! ## What a word is read as -/

/-- What the leading 53 bits of a word stand for, before any rounding. -/
def unitValue (word : UInt64) : ℚ := (word >>> 11).toNat * 2 ^ (-53 : Int)

theorem leadingBits_lt (word : UInt64) : (word >>> 11).toNat < 2 ^ 53 := by
  have := word.toNat_lt
  rw [UInt64.toNat_shiftRight, Nat.shiftRight_eq_div_pow]
  change word.toNat / 2 ^ 11 < 2 ^ 53
  omega

theorem unitValue_nonneg (word : UInt64) : 0 ≤ unitValue word := by
  rw [unitValue]
  positivity

theorem unitValue_lt_one (word : UInt64) : unitValue word < 1 := by
  have h : ((word >>> 11).toNat : ℚ) < 2 ^ 53 := by exact_mod_cast leadingBits_lt word
  calc unitValue word < 2 ^ 53 * 2 ^ (-53 : Int) := mul_lt_mul_of_pos_right h (by positivity)
    _ = 1 := by norm_num

namespace Binary

variable {f : Format}

/-- The fraction of a word is exact. -/
theorem value_unitFraction (word : UInt64) :
    (unitFraction word).IsFinite ∧
      (unitFraction word).value = (word >>> 11).toNat * 2 ^ (-53 : Int) := by
  have hn := leadingBits_lt word
  have hone := unitValue_lt_one word
  rw [unitValue] at hone
  rw [unitFraction]
  generalize (word >>> 11).toNat = n at *
  have h : Rounds (((n : Int) : ℚ) * 2 ^ (-53 : Int)) (ofDyadic n (-53) : Binary64) := by
    have := rounds_nearest (f := .double) false n (-53 - Format.unitExponent .double)
    rwa [signFactor_false, Int.cast_one, one_mul, Format.unit, mul_assoc, ← zpow_add₀ two_ne_zero,
      sub_add_cancel] at this
  have hlt : |((n : Int) : ℚ) * 2 ^ (-53 : Int)| < Format.valueAt .double (Format.top .double) := by
    rw [Int.cast_natCast, abs_of_nonneg (by positivity)]
    exact hone.trans (lt_trans (by norm_num) (Format.four_lt_valueAt_top .double))
  have hsig : (n : Int).natAbs ≤ 2 * Format.leading .double := by
    rw [Int.natAbs_natCast, Format.leading_eq_pow]
    exact hn.le.trans (by decide)
  have e := h.value_eq_zpow hsig (by decide) hlt.le
  exact ⟨isFinite_of_abs_lt h.isNumber (e ▸ hlt), by rw [e, Int.cast_natCast]⟩

/-- The scalar that a word is read as. -/
def ofWord (f : Format) (word : UInt64) : Binary f := Scalar.ofBinary64 (unitFraction word)

theorem rounds_ofWord (f : Format) (word : UInt64) : Rounds (unitValue word) (ofWord f word) := by
  obtain ⟨hfin, hv⟩ := value_unitFraction word
  have h : Rounds _ (ofWord f word) := rounds_convert f hfin
  rwa [hv] at h

/-- Every word is read as a scalar between zero and one and on the grid of the draws. -/
theorem isDraw_ofWord (f : Format) (word : UInt64) : IsDraw (ofWord f word) := by
  have h := rounds_ofWord f word
  have h0 := h.value_nonneg (unitValue_nonneg word)
  have h1 := h.value_le isFinite_one.1 (by rw [value_one]; exact (unitValue_lt_one word).le)
  rw [value_one] at h1
  have hx := isFinite_of_abs_le_four h.isNumber (by rw [abs_of_nonneg h0]; linarith)
  refine ⟨h.isNumber, h0, h1, h.nearest.isMultiple hx.2 ⟨(word >>> 11).toNat, ?_⟩⟩
  rw [unitValue, mul_assoc, ← f.two_zpow_drawScale, Int.cast_natCast]

end Binary

/-- Every source of words is a source of such scalars. -/
theorem Binary.yields_isDraw {G : Type} [WordSource G] {f : Format} {I : G → Prop}
    (h : ∀ g, I g → I (WordSource.next g).2) : Draw.Yields I (Binary.IsDraw : Binary f → Prop) :=
  fun g hg => ⟨Binary.isDraw_ofWord f (WordSource.next g).1, h g hg⟩

end HitTest
