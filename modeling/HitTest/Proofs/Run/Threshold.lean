import HitTest.Proofs.Binary.Magnitude
import HitTest.Proofs.Binary.Roundoff
import HitTest.Proofs.Run.Verdict
import HitTest.Run.Settings

/-!
# The failure threshold (`Tally::exceeds`)

Mismatches are compared with a rounded product, the number of trials times the rate. The number of
mismatches is exact in 64 bits, so a product that is not below it is not rounded below it: rounding
never fails a suite that is within its rate. And as products are rounded monotonically, a suite that
has failed also fails with more mismatches, fewer trials or a smaller rate.

One percent is not a number of 64 bits. The number nearest to it is a little above it, so a hundred
trials to a mismatch are tolerated; and it is so near that, for all numbers of trials there are, the
rounded product stays below the next hundredth. So the comparison is the one of whole numbers.
-/

namespace HitTest

open Binary hiding min max

namespace Tally

variable {t t' : Tally} {rate rate' : Binary64}

/-! ## Counts -/

theorem value_ofNat_count (n : UInt32) :
    (Binary.ofNat n.toNat : Binary64).value = n.toNat ∧
      (Binary.ofNat n.toNat : Binary64).IsFinite :=
  value_ofNat_double (n.toNat_lt.le.trans (by decide))

/-- Mismatches that can be added up are compared, as an exact number, with the rounded product. -/
theorem exceeds_eq (h : t.total < UInt32.size)
    (hproduct : (Binary.ofNat t.trials.toNat * rate : Binary64).isNumber = true) :
    t.exceeds rate =
      .ok (decide ((Binary.ofNat t.trials.toNat * rate : Binary64).value < t.total)) := by
  rcases t.failed_cases with ⟨n, hn, hsum⟩ | ⟨-, hbig⟩
  · obtain ⟨hvalue, hfin⟩ := value_ofNat_count n
    have hlt := lt_iff_value hproduct hfin.1
    rw [hvalue] at hlt
    rw [exceeds, hn, ← hsum]
    exact congrArg Except.ok (decide_eq_decide.2 hlt)
  · omega

/-- The product of a number of trials and a rate is rounded. -/
theorem rounds_product (t : Tally) (h : rate.IsFinite) :
    Rounds (t.trials.toNat * rate.value) (Binary.ofNat t.trials.toNat * rate : Binary64) := by
  obtain ⟨hvalue, hfin⟩ := value_ofNat_count t.trials
  have hround := rounds_mul hfin h
  rwa [hvalue] at hround

theorem exceeds_iff (h : t.total < UInt32.size) (hrate : rate.IsFinite) :
    t.exceeds rate = .ok true ↔
      (Binary.ofNat t.trials.toNat * rate : Binary64).value < t.total := by
  rw [exceeds_eq h (t.rounds_product hrate).isNumber, Except.ok.injEq, decide_eq_true_iff]

/-- Rounding does not take a product below a number of mismatches that it is not below. -/
theorem lt_of_exceeds (h : t.total < UInt32.size) (hrate : rate.IsFinite)
    (hexceeds : t.exceeds rate = .ok true) : t.trials.toNat * rate.value < t.total := by
  obtain ⟨hvalue, hfin⟩ := value_ofNat_double (n := t.total) (h.le.trans (by decide))
  rw [exceeds_iff h hrate] at hexceeds
  by_contra hle
  have hkept := (t.rounds_product hrate).le_value hfin.1 (hvalue ▸ not_lt.1 hle)
  rw [hvalue] at hkept
  exact hexceeds.not_ge hkept

/-- More mismatches of any kind are more in all. -/
theorem total_le_total (h : ∀ m, t.count m ≤ t'.count m) : t.total ≤ t'.total := by
  have hp : t.falsePositives.toNat ≤ t'.falsePositives.toNat := h .falsePositive
  have hn : t.falseNegatives.toNat ≤ t'.falseNegatives.toNat := h .falseNegative
  have he : t.notEquivalent.toNat ≤ t'.notEquivalent.toNat := h .notEquivalent
  unfold total
  omega

/-- A failure stays one with more mismatches, fewer trials and a smaller rate. -/
theorem exceeds_mono (h' : t'.total < UInt32.size) (hcount : ∀ m, t.count m ≤ t'.count m)
    (htrials : t'.trials ≤ t.trials) (hrate : rate.IsFinite) (h0 : 0 ≤ rate') (hle : rate' ≤ rate)
    (hexceeds : t.exceeds rate = .ok true) : t'.exceeds rate' = .ok true := by
  have htotal := total_le_total hcount
  have hrate' := hrate.of_nonneg_of_le h0 hle
  rw [exceeds_iff (htotal.trans_lt h') hrate] at hexceeds
  rw [exceeds_iff h' hrate']
  have hproduct : (t'.trials.toNat : ℚ) * rate'.value ≤ t.trials.toNat * rate.value := by
    have htrials' : (t'.trials.toNat : ℚ) ≤ t.trials.toNat := by exact_mod_cast htrials
    exact mul_le_mul htrials' (value_le_value hle) (nonneg_iff.1 h0).2 (by positivity)
  calc (Binary.ofNat t'.trials.toNat * rate' : Binary64).value
      ≤ (Binary.ofNat t.trials.toNat * rate : Binary64).value :=
        (t'.rounds_product hrate').value_le_value (t.rounds_product hrate) hproduct
    _ < t.total := hexceeds
    _ ≤ t'.total := by exact_mod_cast htotal

end Tally

/-! ## One percent -/

namespace Settings

/-- The rate of runs that are not given one. -/
def defaultRate : Binary64 := ({} : Settings).maxFailureRate

/-- It is above one hundredth, by twelve parts in `2 ^ 59` of it. -/
theorem value_defaultRate : defaultRate.IsFinite ∧
    defaultRate.value = (1 + 12 / 2 ^ 59) / 100 := by
  have hrank : defaultRate = .number false 0x3F847AE147AE147B (by decide) := by decide +kernel
  have hunits : Format.double.units 0x3F847AE147AE147B = 5764607523034235 * 2 ^ 1015 := by
    rw [Format.units_eq]
    decide +kernel
  have hunit : (2 : ℚ) ^ 1015 * Format.double.unit = 1 / 2 ^ 59 := by
    rw [Format.unit, ← zpow_natCast, ← zpow_add₀ two_ne_zero]
    norm_num [Format.unitExponent]
  rw [hrank]
  refine ⟨isFinite_number.2 (by decide), ?_⟩
  rw [value_number, hunits, signFactor_false]
  simp only [Nat.cast_mul, Nat.cast_pow, Nat.cast_ofNat]
  rw [mul_assoc, hunit]
  norm_num

end Settings

namespace Tally

variable {t : Tally}

/-- The rounded product with one percent is below the first hundredth after the exact one. -/
theorem product_lt (t : Tally) :
    (Binary.ofNat t.trials.toNat * Settings.defaultRate : Binary64).value <
      ((t.trials.toNat : ℚ) + 1) / 100 := by
  obtain ⟨hrate, hvalue⟩ := Settings.value_defaultRate
  have hround := t.rounds_product hrate
  have htrials : (t.trials.toNat : ℚ) ≤ 2 ^ 32 := by exact_mod_cast t.trials.toNat_lt.le
  have h0 : (0 : ℚ) ≤ t.trials.toNat := by positivity
  rw [hvalue] at hround
  generalize (t.trials.toNat : ℚ) = n at *
  have hexact : 0 ≤ n * ((1 + 12 / 2 ^ 59) / 100) := by positivity
  have hsmall : |n * ((1 + 12 / 2 ^ 59) / 100)| ≤ 2 ^ 32 := by
    rw [abs_of_nonneg hexact]
    linarith
  have hfin := (Within.of_rounds hround hsmall (by decide)).isFinite (by decide)
  obtain ⟨herror, -⟩ := hround.error hfin
  rw [abs_of_nonneg hexact] at herror
  -- a product of at most `2 ^ 32` and one unit of roundoff is far less than a hundredth
  have hmax : max (n * ((1 + 12 / 2 ^ 59) / 100)) Format.double.leastFull ≤ 2 ^ 32 := by
    refine max_le (by linarith) ?_
    rw [← value_minPositive_eq, value_minPositive]
    exact (zpow_le_one_of_nonpos₀ (by norm_num) (by decide)).trans (by norm_num)
  have hroundoff : Format.double.roundoff = 1 / 2 ^ 53 := by
    rw [Format.roundoff, Format.leading_eq_pow]
    norm_num [Format.fractionBits]
  rw [hroundoff] at herror
  have hup := (abs_le.1 herror).2
  linarith

/-- With one percent the comparison is that of whole numbers. -/
theorem exceeds_defaultRate (h : t.total < UInt32.size) :
    t.exceeds Settings.defaultRate = .ok (decide (t.trials.toNat < 100 * t.total)) := by
  obtain ⟨hrate, hvalue⟩ := Settings.value_defaultRate
  have hround := t.rounds_product hrate
  rw [exceeds_eq h hround.isNumber]
  refine congrArg Except.ok (decide_eq_decide.2 ⟨?_, ?_⟩)
  · intro hlt
    have hexact := lt_of_exceeds h hrate ((exceeds_iff h hrate).2 hlt)
    rw [hvalue] at hexact
    have h0 : (0 : ℚ) ≤ t.trials.toNat := by positivity
    have : (t.trials.toNat : ℚ) < 100 * t.total := by linarith
    exact_mod_cast this
  · intro hlt
    have hnext : (t.trials.toNat : ℚ) + 1 ≤ 100 * t.total := by exact_mod_cast hlt
    have := t.product_lt
    linarith

/-- Mismatches that can be added up are compared with every rate that is finite and not below zero
(`Tally::exceeds`). If they exceed it then there are more of them than that share of the trials,
without rounding, and they still exceed it when there are more of any kind, fewer trials, or the
rate is smaller. They exceed the rate of one percent if and only if a hundred times their number is
more than the number of trials. -/
theorem exceeds_threshold (h : t.total < UInt32.size) :
    (∀ rate : Binary64, rate.IsFinite → 0 ≤ rate →
      (∃ b, t.exceeds rate = .ok b) ∧
      (t.exceeds rate = .ok true → t.trials.toNat * rate.value < t.total ∧
        ∀ (t' : Tally) (rate' : Binary64), t'.total < UInt32.size →
          (∀ m, t.count m ≤ t'.count m) → t'.trials ≤ t.trials → 0 ≤ rate' → rate' ≤ rate →
            t'.exceeds rate' = .ok true)) ∧
    t.exceeds ({} : Settings).maxFailureRate = .ok (decide (t.trials.toNat < 100 * t.total)) := by
  refine ⟨?_, exceeds_defaultRate h⟩
  intro rate hrate _
  refine ⟨⟨_, exceeds_eq h (t.rounds_product hrate).isNumber⟩, ?_⟩
  intro hexceeds
  refine ⟨lt_of_exceeds h hrate hexceeds, ?_⟩
  intro t' rate' h' hcount htrials h0 hle
  exact exceeds_mono h' hcount htrials hrate h0 hle hexceeds

/-- One mismatch in a hundred trials is tolerated. Two are not, neither when both are of one kind
nor of two, and still not when there are more mismatches in fewer trials. -/
theorem exceeds_threshold_hundred :
    (⟨100, 1, 0, 0⟩ : Tally).exceeds ({} : Settings).maxFailureRate = .ok false ∧
      (⟨100, 1, 1, 0⟩ : Tally).exceeds ({} : Settings).maxFailureRate = .ok true ∧
      (⟨99, 1, 1, 3⟩ : Tally).exceeds 0 = .ok true := by
  obtain ⟨-, hone⟩ := exceeds_threshold (t := ⟨100, 1, 0, 0⟩) (by decide)
  obtain ⟨hall, htwo⟩ := exceeds_threshold (t := ⟨100, 1, 1, 0⟩) (by decide)
  obtain ⟨-, hmono⟩ := hall _ Settings.value_defaultRate.1 (by decide +kernel)
  refine ⟨hone, htwo, ?_⟩
  exact (hmono htwo).2 ⟨99, 1, 1, 3⟩ 0 (by decide) (fun m => by cases m <;> decide) (by decide)
    (by decide) (by decide +kernel)

end Tally

end HitTest
