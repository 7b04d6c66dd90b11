import HitTest.Decimal.Shortest
import Mathlib.Algebra.Order.Field.Power
import Mathlib.Data.Rat.Cast.Order
import Mathlib.Tactic.Linarith
import Mathlib.Tactic.NormNum
import Mathlib.Tactic.Positivity
import Mathlib.Tactic.Ring

/-!
# The shortest decimal is in the neighborhood

The search goes down one place after the other and is given up after twenty. It never is: where a
power of ten fits between the lower end of the neighborhood and the number, there is a decimal, and
that place is reached in time if the gap is not too small a part of the number.
-/

namespace HitTest

/-! ## Decimals -/

/-- The number that a decimal stands for. -/
def Decimal.value (d : Decimal) : ℚ := d.digits * 10 ^ d.exponent

theorem Decimal.cast_tenPow (n : Nat) : (tenPow n : ℚ) = 10 ^ n := by
  rw [show tenPow n = 10 ^ n from rfl, Nat.cast_pow, Nat.cast_ofNat]

/-- A power of ten as a quotient of two that are whole. -/
theorem Decimal.zpow_mul_tenPow (place : Int) :
    (10 : ℚ) ^ place * tenPow (-place).toNat = tenPow place.toNat := by
  rw [cast_tenPow, cast_tenPow, ← zpow_natCast, ← zpow_natCast, ← zpow_add₀ (by norm_num)]
  congr 1
  omega

theorem Decimal.tenPow_pos (n : Nat) : (0 : ℚ) < tenPow n := by
  rw [cast_tenPow]
  positivity

/-! ## The leading place -/

namespace Decimal

theorem le_div_of_reaches {n d : Nat} {place : Int} (hd : 0 < d)
    (h : reaches n d place = true) : (10 : ℚ) ^ place ≤ n / d := by
  have hle : ((d * tenPow place.toNat : Nat) : ℚ) ≤ (n * tenPow (-place).toNat : Nat) :=
    Nat.cast_le.2 (of_decide_eq_true h)
  rw [Nat.cast_mul, Nat.cast_mul, ← zpow_mul_tenPow, ← mul_assoc] at hle
  rw [le_div_iff₀ (by exact_mod_cast hd), mul_comm]
  exact le_of_mul_le_mul_right hle (tenPow_pos _)

/-- Powers that are ordered stay so when both exponents are multiplied. -/
theorem zpow_mul_le_zpow_mul {a b c d : Nat} (h : a ^ c ≤ b ^ d) (k : Nat) :
    (a : ℚ) ^ (c * k : Int) ≤ (b : ℚ) ^ (d * k : Int) := by
  rw [zpow_mul, zpow_mul, zpow_natCast, zpow_natCast, zpow_natCast, zpow_natCast]
  exact_mod_cast Nat.pow_le_pow_left h k

/-- A bit is worth between `1233 / 4096` and `1233 / 4095` places, so the estimate is not too great
by more than one bit, as long as there are not too many bits. -/
theorem ten_zpow_estimate_le {bits : Int} (h : -4096 ≤ bits) :
    (10 : ℚ) ^ (bits * 1233 / 4096) ≤ 2 ^ (bits + 1) := by
  -- to the power of 4096 there is no quotient left in the exponent
  refine le_of_pow_le_pow_left₀ (n := 4096) (by decide) (by positivity) ?_
  rw [← zpow_natCast, ← zpow_natCast, ← zpow_mul, ← zpow_mul]
  refine le_trans (zpow_le_zpow_right₀ (by norm_num) (by omega) : _ ≤ (10 : ℚ) ^ (1233 * bits)) ?_
  rcases le_total 0 bits with hpos | hneg
  · obtain ⟨k, rfl⟩ := Int.eq_ofNat_of_zero_le hpos
    have hk := zpow_mul_le_zpow_mul (by decide +kernel : 10 ^ 1233 ≤ 2 ^ 4096) k
    rw [Nat.cast_ofNat, Nat.cast_ofNat] at hk
    exact hk.trans (zpow_le_zpow_right₀ one_le_two (by omega))
  · obtain ⟨k, hk'⟩ := Int.eq_ofNat_of_zero_le (Int.neg_nonneg.2 hneg)
    obtain rfl : bits = -k := by omega
    have hk := zpow_mul_le_zpow_mul (by decide +kernel : 2 ^ 4095 ≤ 10 ^ 1233) k
    rw [Nat.cast_ofNat, Nat.cast_ofNat] at hk
    have hinv := inv_anti₀ (by positivity) hk
    rw [← zpow_neg, ← zpow_neg] at hinv
    rw [mul_neg]
    exact hinv.trans (zpow_le_zpow_right₀ one_le_two (by omega))

/-- The leading place of a quotient is that of a power of ten that is not much above it. -/
theorem ten_zpow_leadingPlace_le {n d : Nat} (hn : 0 < n) (hd : 0 < d) (hlog : d.log2 ≤ 4096) :
    (10 : ℚ) ^ leadingPlace n d ≤ 4 * (n / d) := by
  have hquot : (0 : ℚ) ≤ n / d := by positivity
  unfold leadingPlace
  dsimp only
  split
  · exact (le_div_of_reaches hd ‹_›).trans (by linarith)
  · split
    · exact (le_div_of_reaches hd ‹_›).trans (by linarith)
    · have hlow : (2 : ℚ) ^ (n.log2 : Int) ≤ n := by
        rw [zpow_natCast]
        exact_mod_cast Nat.log2_self_le hn.ne'
      have hup : (d : ℚ) ≤ 2 ^ ((d.log2 + 1 : Nat) : Int) := by
        rw [zpow_natCast]
        exact_mod_cast Nat.lt_log2_self.le
      calc (10 : ℚ) ^ (((n.log2 : Int) - d.log2) * 1233 / 4096 - 1)
          ≤ 10 ^ (((n.log2 : Int) - d.log2) * 1233 / 4096) :=
            zpow_le_zpow_right₀ (by norm_num) (by omega)
        _ ≤ 2 ^ ((n.log2 : Int) - d.log2 + 1) := ten_zpow_estimate_le (by omega)
        _ = 4 * (2 ^ (n.log2 : Int) / 2 ^ ((d.log2 + 1 : Nat) : Int)) := by
            rw [← zpow_sub₀ two_ne_zero, show (4 : ℚ) = 2 ^ (2 : Int) by norm_num,
              ← zpow_add₀ two_ne_zero]
            congr 1
            push_cast
            ring
        _ ≤ 4 * (n / d) := by gcongr

end Decimal

/-! ## The neighborhood -/

namespace Neighborhood

variable {h : Neighborhood} {place : Int}

/-- A number is in a neighborhood. -/
structure Holds (h : Neighborhood) (x : ℚ) : Prop where
  lower : h.lower / h.denominator ≤ x ∧ (h.lower / h.denominator = x → h.closed = true)
  upper : x ≤ h.upper / h.denominator ∧ (x = h.upper / h.denominator → h.closed = true)

/-- Inside of the ends it does not matter whether they belong to the neighborhood. -/
theorem Holds.of_lt {x : ℚ} (hlower : h.lower / h.denominator < x)
    (hupper : x < h.upper / h.denominator) : h.Holds x :=
  ⟨⟨hlower.le, fun e => absurd e hlower.ne⟩, ⟨hupper.le, fun e => absurd e hupper.ne⟩⟩

/-- Quotients are compared by their multiples of a common factor that are whole. -/
theorem compare_of_mul_eq {x y factor : ℚ} {m n : Nat} (hpos : 0 < factor) (hx : x * factor = m)
    (hy : y * factor = n) : (x ≤ y ↔ m ≤ n) ∧ (x = y ↔ m = n) := by
  constructor
  · rw [← mul_le_mul_iff_of_pos_right hpos, hx, hy, Nat.cast_le]
  · rw [← mul_left_inj' hpos.ne', hx, hy, Nat.cast_inj]

section Scaled

variable (hd : 0 < h.denominator) (place : Int)
include hd

theorem factor_pos : (0 : ℚ) < h.denominator * Decimal.tenPow (-place).toNat :=
  mul_pos (by exact_mod_cast hd) (Decimal.tenPow_pos _)

theorem div_mul_factor (n : Nat) :
    (n / h.denominator : ℚ) * (h.denominator * Decimal.tenPow (-place).toNat) =
      (n * Decimal.tenPow (-place).toNat : Nat) := by
  have hne : (h.denominator : ℚ) ≠ 0 := by exact_mod_cast hd.ne'
  rw [← mul_assoc, div_mul_cancel₀ _ hne, Nat.cast_mul]

omit hd in
theorem mul_zpow_mul_factor (digits : Nat) :
    (digits * 10 ^ place : ℚ) * (h.denominator * Decimal.tenPow (-place).toNat) =
      (digits * h.denominator * Decimal.tenPow place.toNat : Nat) := by
  rw [mul_mul_mul_comm, Decimal.zpow_mul_tenPow, Nat.cast_mul, Nat.cast_mul]

end Scaled

theorem contains_iff (hd : 0 < h.denominator) (digits : Nat) (place : Int) :
    h.contains digits place = true ↔ h.Holds (digits * 10 ^ place) := by
  have hpos := factor_pos hd place
  have hx := mul_zpow_mul_factor (h := h) place digits
  obtain ⟨hlower, hlower'⟩ := compare_of_mul_eq hpos (div_mul_factor hd place h.lower) hx
  obtain ⟨hupper, hupper'⟩ := compare_of_mul_eq hpos hx (div_mul_factor hd place h.upper)
  have hholds : h.Holds (digits * 10 ^ place) ↔
      (_ ∧ (_ → h.closed = true)) ∧ (_ ∧ (_ → h.closed = true)) :=
    ⟨fun h => ⟨h.lower, h.upper⟩, fun h => ⟨h.1, h.2⟩⟩
  rw [hholds, hlower, hlower', hupper, hupper', contains]
  generalize digits * h.denominator * Decimal.tenPow place.toNat = x
  cases h.closed
  · simp only [Bool.false_eq_true, if_false, Bool.and_eq_true, decide_eq_true_iff, imp_false]
    omega
  · simp

/-- A decimal that is found at a place is in the neighborhood. -/
theorem holds_of_decimalAt? (hd : 0 < h.denominator) {d : Decimal}
    (hfound : h.decimalAt? place = some d) : h.Holds d.value := by
  unfold decimalAt? at hfound
  dsimp only at hfound
  generalize h.value * Decimal.tenPow (-place).toNat /
    (h.denominator * Decimal.tenPow place.toNat) = q at hfound
  split at hfound
  · rename_i hq hq'
    obtain rfl := Option.some.inj hfound
    dsimp only [Decimal.value]
    split
    · exact (contains_iff hd _ _).1 hq
    · exact (contains_iff hd _ _).1 hq'
  · rename_i hq _
    obtain rfl := Option.some.inj hfound
    exact (contains_iff hd _ _).1 hq
  · rename_i _ hq'
    obtain rfl := Option.some.inj hfound
    exact (contains_iff hd _ _).1 hq'
  · cases hfound

/-- A decimal is found at a place that is finer than the gap below the number. -/
theorem isSome_decimalAt? (hd : 0 < h.denominator) (hupper : h.value < h.upper)
    (hgap : (10 : ℚ) ^ place ≤ h.value / h.denominator - h.lower / h.denominator) :
    (h.decimalAt? place).isSome := by
  have hpos := factor_pos hd place
  have hvalue := div_mul_factor hd place h.value
  have hstep : 0 < h.denominator * Decimal.tenPow place.toNat :=
    Nat.mul_pos hd (by exact_mod_cast Decimal.tenPow_pos place.toNat)
  -- the lower one of the two candidates is less than a step below the number
  have hq : h.contains (h.value * Decimal.tenPow (-place).toNat /
      (h.denominator * Decimal.tenPow place.toNat)) place = true := by
    rw [contains_iff hd]
    generalize hquot : h.value * Decimal.tenPow (-place).toNat /
      (h.denominator * Decimal.tenPow place.toNat) = q
    have hle : (q * 10 ^ place : ℚ) ≤ h.value / h.denominator := by
      rw [(compare_of_mul_eq hpos (mul_zpow_mul_factor place q) hvalue).1, Nat.mul_assoc, ← hquot]
      exact Nat.div_mul_le_self _ _
    have hlt : (h.value / h.denominator : ℚ) < (q + 1 : Nat) * 10 ^ place := by
      rw [← not_le, (compare_of_mul_eq hpos (mul_zpow_mul_factor place (q + 1)) hvalue).1, not_le,
        Nat.mul_assoc, ← hquot, Nat.mul_comm (_ + 1)]
      exact Nat.lt_mul_div_succ _ hstep
    refine Holds.of_lt ?_ (hle.trans_lt ?_)
    · rw [Nat.cast_succ, add_mul, one_mul] at hlt
      linarith
    · exact div_lt_div_of_pos_right (by exact_mod_cast hupper) (by exact_mod_cast hd)
  unfold decimalAt?
  dsimp only
  rw [hq]
  split <;> simp_all

/-- If a decimal can be found before the search is given up, then one is found. -/
theorem holds_search (hd : 0 < h.denominator) : ∀ (count : Nat) (place : Int),
    (∃ i < count, (h.decimalAt? (place - i)).isSome) → h.Holds (h.search count place).value := by
  intro count
  -- a place that is `i + 1` steps down is `i` steps down from where the search goes on
  induction count with
  | zero =>
    rintro place ⟨i, hi, -⟩
    exact absurd hi (Nat.not_lt_zero i)
  | succ count ih =>
    rintro place ⟨i, hi, hsome⟩
    rw [search]
    cases hfound : h.decimalAt? place with
    | some d => exact holds_of_decimalAt? hd hfound
    | none =>
      cases i with
      | zero =>
        rw [Nat.cast_zero, sub_zero, hfound] at hsome
        cases hsome
      | succ i =>
        refine ih (place - 1) ⟨i, by omega, ?_⟩
        rwa [show place - 1 - (i : Int) = place - (i + 1 : Nat) by omega]

/-- The search does find one if the gap below the number is not too small a part of it. -/
theorem holds_shortest (hd : 0 < h.denominator) (hlog : h.denominator.log2 ≤ 4096)
    (hvalue : 0 < h.value) (hupper : h.value < h.upper)
    (hgap : (h.value / h.denominator : ℚ) ≤
      2 ^ 54 * (h.value / h.denominator - h.lower / h.denominator)) :
    h.Holds h.shortest.value := by
  refine holds_search hd _ _ ⟨19, by decide, isSome_decimalAt? hd hupper ?_⟩
  have hlead := Decimal.ten_zpow_leadingPlace_le hvalue hd hlog
  have hplace : Decimal.leadingPlace h.value h.denominator + 1 - (19 : Nat) =
      Decimal.leadingPlace h.value h.denominator - 18 := by omega
  rw [hplace, zpow_sub₀ (by norm_num), div_le_iff₀ (by norm_num)]
  calc (10 : ℚ) ^ Decimal.leadingPlace h.value h.denominator
      ≤ 4 * (2 ^ 54 * (h.value / h.denominator - h.lower / h.denominator)) :=
        hlead.trans (mul_le_mul_of_nonneg_left hgap (by norm_num))
    _ ≤ (h.value / h.denominator - h.lower / h.denominator) * 10 ^ (18 : Int) := by
        have hpos : (0 : ℚ) ≤ h.value / h.denominator := by positivity
        norm_num
        linarith

end Neighborhood

end HitTest
