import HitTest.Binary.Format
import Mathlib.Algebra.Order.Field.Power
import Mathlib.Data.Int.ConditionallyCompleteOrder
import Mathlib.Data.Rat.Cast.Order
import Mathlib.Order.SuccPred.IntervalSucc
import Mathlib.Tactic.Linarith
import Mathlib.Tactic.Positivity
import Mathlib.Tactic.Ring

/-!
# The grid of a format

The magnitudes of a format are a grid that gets coarser away from zero: rank `s * leading + m` is
`m` steps of `2 ^ s` units, for every `m` from `leading` to `2 * leading`, and for every `m` up to
there if `s = 0`. The signed magnitudes are numbered by the integers, their *places*; `valueAt`
is the rational number at a place, and it increases strictly.
-/

namespace HitTest

namespace Format

theorem leading_eq_pow (f : Format) : f.leading = 2 ^ f.fractionBits := by
  rw [leading_eq, Nat.one_shiftLeft]

theorem even_leading (f : Format) : Even f.leading := by
  rw [leading_eq_pow]
  cases f <;> exact (Nat.even_pow.2 ⟨even_two, by decide⟩)

theorem top_pos (f : Format) : 0 < f.top := lt_of_lt_of_le f.leading_pos f.leading_le_top

/-! ## Ranks as steps of a scale -/

/-- A rank below `2 * leading` steps of a scale counts those steps. -/
theorem units_steps_of_lt (f : Format) {s m : Nat} (hm : m < 2 * f.leading)
    (hs : s = 0 ∨ f.leading ≤ m) : f.units (s * f.leading + m) = m * 2 ^ s := by
  have hL := f.leading_pos
  by_cases h : m < f.leading
  · obtain rfl : s = 0 := hs.resolve_right (by omega)
    rw [Nat.zero_mul, Nat.zero_add, units_of_lt f h, Nat.pow_zero, Nat.mul_one]
  · have e : s * f.leading + m = (m - f.leading) + (s + 1) * f.leading := by
      rw [Nat.succ_mul]; omega
    have hdiv : (s * f.leading + m) / f.leading = s + 1 := by
      rw [e, Nat.add_mul_div_right _ _ hL, Nat.div_eq_of_lt (by omega), Nat.zero_add]
    have hmod : (s * f.leading + m) % f.leading = m - f.leading := by
      rw [e, Nat.add_mul_mod_self_right, Nat.mod_eq_of_lt (by omega)]
    have hbig : ¬ s * f.leading + m < f.leading := by
      rw [e, Nat.succ_mul]; omega
    simp only [units, significand, scale, hdiv, hmod, if_neg hbig, Nat.shiftLeft_eq]
    rw [Nat.sub_add_cancel (by omega), Nat.add_sub_cancel]

/-- The last of the steps of a scale is the first full one of the next. -/
theorem units_steps (f : Format) {s m : Nat} (hm : m ≤ 2 * f.leading)
    (hs : s = 0 ∨ f.leading ≤ m) : f.units (s * f.leading + m) = m * 2 ^ s := by
  rcases Nat.lt_or_eq_of_le hm with h | rfl
  · exact units_steps_of_lt f h hs
  · have hL := f.leading_pos
    have e : s * f.leading + 2 * f.leading = (s + 1) * f.leading + f.leading := by ring
    rw [e, units_steps_of_lt f (by omega) (.inr le_rfl), pow_succ]
    ring

theorem significand_lt (f : Format) (r : Nat) : f.significand r < 2 * f.leading := by
  have := Nat.mod_lt r f.leading_pos
  unfold significand
  split <;> omega

theorem scale_eq_zero_or (f : Format) (r : Nat) : f.scale r = 0 ∨ f.leading ≤ f.significand r := by
  unfold scale significand
  split
  · rename_i h; simp [Nat.div_eq_of_lt h]
  · omega

/-- A rank is its significand, past the ranks of all smaller scales. -/
theorem rank_eq (f : Format) (r : Nat) : r = f.scale r * f.leading + f.significand r := by
  unfold scale significand
  split
  · rename_i h; simp [Nat.div_eq_of_lt h]
  · rename_i h
    have h1 : 1 ≤ r / f.leading := (Nat.one_le_div_iff f.leading_pos).2 (by omega)
    have h2 := Nat.div_add_mod' r f.leading
    have h3 : f.leading ≤ r / f.leading * f.leading := Nat.le_mul_of_pos_left _ h1
    rw [Nat.sub_mul, Nat.one_mul]
    omega

theorem units_eq (f : Format) (r : Nat) : f.units r = f.significand r * 2 ^ f.scale r :=
  Nat.shiftLeft_eq _ _

/-- The next magnitude is one step of the scale away. -/
theorem units_succ (f : Format) (r : Nat) : f.units (r + 1) = f.units r + 2 ^ f.scale r := by
  conv_lhs => rw [f.rank_eq r, Nat.add_assoc]
  have h := f.scale_eq_zero_or r
  rw [units_steps f (f.significand_lt r) (by omega), units_eq, Nat.succ_mul]

theorem units_strictMono (f : Format) : StrictMono f.units :=
  strictMono_nat_of_lt_succ fun r => by
    rw [units_succ]; exact Nat.lt_add_of_pos_right (by positivity)

@[simp] theorem units_zero (f : Format) : f.units 0 = 0 := units_of_lt f f.leading_pos

theorem units_pos (f : Format) {r : Nat} (h : r ≠ 0) : 0 < f.units r := by
  rw [← f.units_zero]
  exact f.units_strictMono (Nat.pos_of_ne_zero h)

/-- A significand of any size up to `2 * leading` makes a magnitude at every scale. -/
theorem exists_units_eq (f : Format) :
    ∀ (t : Nat) {m : Nat}, m ≤ 2 * f.leading → ∃ r, f.units r = m * 2 ^ t
  | 0, m, hm => ⟨m, by simpa using f.units_steps (s := 0) hm (.inl rfl)⟩
  | t + 1, m, hm => by
    by_cases h : m ≤ f.leading
    · obtain ⟨r, hr⟩ := f.exists_units_eq t (m := 2 * m) (by omega)
      exact ⟨r, by rw [hr, pow_succ]; ring⟩
    · exact ⟨(t + 1) * f.leading + m, f.units_steps hm (.inr (by omega))⟩

/-! ## Places -/

/-- The least positive number of a format. -/
def unit (f : Format) : ℚ := 2 ^ f.unitExponent

theorem unit_pos (f : Format) : 0 < f.unit := zpow_pos two_pos _

/-- The number at a place. Infinity is at place `top`, where the next magnitude would be. -/
def valueAt (f : Format) (p : Int) : ℚ := p.sign * f.units p.natAbs * f.unit

theorem valueAt_natCast (f : Format) (r : Nat) : f.valueAt r = f.units r * f.unit := by
  rcases Nat.eq_zero_or_pos r with rfl | h
  · simp [valueAt]
  · simp [valueAt, Int.sign_natCast_of_ne_zero h.ne']

@[simp] theorem valueAt_zero (f : Format) : f.valueAt 0 = 0 := by simp [valueAt]

@[simp] theorem valueAt_neg (f : Format) (p : Int) : f.valueAt (-p) = -f.valueAt p := by
  simp [valueAt]

theorem valueAt_lt_succ_natCast (f : Format) (r : Nat) : f.valueAt r < f.valueAt (r + 1) := by
  have h : f.units r < f.units (r + 1) := f.units_strictMono r.lt_succ_self
  have e := f.valueAt_natCast (r + 1)
  push_cast at e
  rw [valueAt_natCast, e]
  exact mul_lt_mul_of_pos_right (mod_cast h) f.unit_pos

theorem valueAt_strictMono (f : Format) : StrictMono f.valueAt := by
  apply strictMono_int_of_lt_succ
  intro p
  rcases le_or_gt 0 p with h | h
  · lift p to ℕ using h
    exact f.valueAt_lt_succ_natCast p
  · -- below zero the grid is the mirror image
    obtain ⟨r, hr⟩ := Int.eq_ofNat_of_zero_le (show 0 ≤ -(p + 1) by omega)
    have e := f.valueAt_lt_succ_natCast r
    rw [← hr, show -(p + 1) + 1 = -p by ring, valueAt_neg, valueAt_neg] at e
    exact neg_lt_neg_iff.1 e

theorem valueAt_abs (f : Format) (p : Int) : f.valueAt |p| = |f.valueAt p| := by
  rcases le_total 0 p with h | h
  · rw [abs_of_nonneg h, abs_of_nonneg]
    simpa using f.valueAt_strictMono.monotone h
  · rw [abs_of_nonpos h, valueAt_neg, abs_of_nonpos]
    simpa using f.valueAt_strictMono.monotone h

/-- A multiple of a power of two that a significand can hold is on the grid. -/
theorem exists_valueAt_of_multiple (f : Format) {n : Int} {t : Nat}
    (hn : n.natAbs ≤ 2 * f.leading) : ∃ p, f.valueAt p = n * 2 ^ t * f.unit := by
  obtain ⟨r, hr⟩ := f.exists_units_eq t hn
  have hv : f.valueAt r = (n.natAbs : ℚ) * 2 ^ t * f.unit := by
    rw [valueAt_natCast, hr]; push_cast; ring
  rcases le_total 0 n with h | h
  · refine ⟨r, ?_⟩
    rw [hv, Nat.cast_natAbs, abs_of_nonneg h]
  · refine ⟨-r, ?_⟩
    rw [valueAt_neg, hv, Nat.cast_natAbs, abs_of_nonpos h]
    push_cast; ring

end Format

end HitTest
