import HitTest.Binary.Rounding
import HitTest.Proofs.Binary.Grid
import Mathlib.Tactic.LinearCombination

/-!
# The place nearest to a rational number

Rounding is a relation between a rational number and a place: the number is not beyond the
midpoints to the two neighboring places, and on a midpoint only if the place is even. No place is
beyond infinity, so the outermost midpoints bound nothing. The relation is monotone, hence a
function, and `rankNearest` computes it.
-/

namespace HitTest

/-- The natural number nearest to a rational number; of two, the even one. -/
structure IsHalfEven (m : Nat) (y : ℚ) : Prop where
  lower : 2 * (m : ℚ) ≤ 2 * y + 1
  upper : 2 * y ≤ 2 * (m : ℚ) + 1
  even : 2 * (m : ℚ) = 2 * y + 1 ∨ 2 * y = 2 * (m : ℚ) + 1 → Even m

theorem IsHalfEven.natCast (m : Nat) : IsHalfEven m m :=
  ⟨by linarith, by linarith, by
    intro h
    rcases h with h | h <;> linarith⟩

/-- Cutting off digits goes to the nearest natural number; in the middle, to the even one. -/
theorem isHalfEven_halfEven (n k : Nat) : IsHalfEven (halfEven n k) (n / 2 ^ k) := by
  have hp : (0 : ℚ) < 2 ^ k := by positivity
  have hn : (n : ℚ) / 2 ^ k * 2 ^ k = n := div_mul_cancel₀ _ hp.ne'
  obtain ⟨h1, h2⟩ := halfEven_near n k
  rw [Nat.shiftLeft_eq, Nat.one_shiftLeft] at h1 h2
  have h1' : 2 * (halfEven n k * 2 ^ k : ℚ) ≤ 2 * n + 2 ^ k := by exact_mod_cast h1
  have h2' : 2 * (n : ℚ) ≤ 2 * (halfEven n k * 2 ^ k) + 2 ^ k := by exact_mod_cast h2
  refine ⟨le_of_mul_le_mul_right (by linarith) hp, le_of_mul_le_mul_right (by linarith) hp, ?_⟩
  -- a tie is an odd number of halves, the form that `halfEven_tie` speaks of
  have tie : ∀ q : Nat, 2 * n = (2 * q + 1) * 2 ^ k → Even (halfEven n k) := by
    intro q hq
    cases k with
    | zero => omega
    | succ k =>
      obtain rfl : n = (2 * q + 1) <<< k := by
        rw [Nat.shiftLeft_eq]; rw [pow_succ] at hq; linarith
      exact Nat.even_iff.2 (halfEven_tie q k)
  rintro (h | h)
  · have hq : (2 * n : ℚ) + 2 ^ k = 2 * (halfEven n k * 2 ^ k) := by
      linear_combination (-2 : ℚ) * hn - 2 ^ k * h
    have hq : 2 * n + 2 ^ k = 2 * (halfEven n k * 2 ^ k) := by exact_mod_cast hq
    obtain ⟨q, hq'⟩ : ∃ q, halfEven n k = q + 1 := Nat.exists_eq_succ_of_ne_zero fun h0 => by
      rw [h0] at hq; have := Nat.two_pow_pos k; omega
    refine tie q ?_
    rw [hq'] at hq
    linarith
  · have hq : (2 * n : ℚ) = (2 * halfEven n k + 1) * 2 ^ k := by
      linear_combination (-2 : ℚ) * hn + 2 ^ k * h
    exact tie _ (by exact_mod_cast hq)

namespace Format

variable {f : Format} {x y : ℚ} {p q : Int}

/-- Halfway from a place to the next one. -/
def midpoint (f : Format) (p : Int) : ℚ := (f.valueAt p + f.valueAt (p + 1)) / 2

theorem midpoint_strictMono (f : Format) : StrictMono f.midpoint := by
  intro p q h
  have h1 := f.valueAt_strictMono h
  have h2 := f.valueAt_strictMono (show p + 1 < q + 1 by omega)
  unfold midpoint
  linarith

theorem midpoint_neg (f : Format) (p : Int) : f.midpoint (-p - 1) = -f.midpoint p := by
  unfold midpoint
  rw [show -p - 1 = -(p + 1) by ring, show -(p + 1) + 1 = -p by ring, valueAt_neg, valueAt_neg]
  ring

theorem valueAt_lt_midpoint (f : Format) (p : Int) : f.valueAt p < f.midpoint p := by
  have := f.valueAt_strictMono (show p < p + 1 by omega)
  unfold midpoint
  linarith

theorem midpoint_pred_lt_valueAt (f : Format) (p : Int) : f.midpoint (p - 1) < f.valueAt p := by
  have := f.valueAt_strictMono (show p - 1 < p by omega)
  unfold midpoint
  rw [sub_add_cancel]
  linarith

/-- A rational number is rounded to a place. -/
structure Nearest (f : Format) (x : ℚ) (p : Int) : Prop where
  in_range : |p| ≤ f.top
  lower : -f.top < p → f.midpoint (p - 1) ≤ x ∧ (f.midpoint (p - 1) = x → Even p)
  upper : p < f.top → x ≤ f.midpoint p ∧ (x = f.midpoint p → Even p)

namespace Nearest

/-- Rounding keeps the order. -/
theorem mono (hx : f.Nearest x p) (hy : f.Nearest y q) (h : x ≤ y) : p ≤ q := by
  by_contra hlt
  have hp := abs_le.1 hx.in_range
  have hq := abs_le.1 hy.in_range
  obtain ⟨hlow, hlow'⟩ := hx.lower (by omega)
  obtain ⟨hup, hup'⟩ := hy.upper (by omega)
  have hmid : f.midpoint q ≤ f.midpoint (p - 1) := f.midpoint_strictMono.monotone (by omega)
  -- both are on the one midpoint between the two places, which only the even one may take
  have hpq : q = p - 1 := f.midpoint_strictMono.injective (by linarith)
  have h1 := hlow' (by linarith)
  have h2 := hup' (by linarith)
  rw [hpq] at h2
  exact (Int.even_sub_one.1 h2) h1

theorem unique (hp : f.Nearest x p) (hq : f.Nearest x q) : p = q :=
  le_antisymm (hp.mono hq le_rfl) (hq.mono hp le_rfl)

/-- What is on the grid is rounded to its own place. -/
theorem of_valueAt (h : |p| ≤ f.top) : f.Nearest (f.valueAt p) p where
  in_range := h
  lower _ :=
    ⟨(f.midpoint_pred_lt_valueAt p).le, fun e => absurd e (f.midpoint_pred_lt_valueAt p).ne⟩
  upper _ := ⟨(f.valueAt_lt_midpoint p).le, fun e => absurd e (f.valueAt_lt_midpoint p).ne⟩

theorem zero : f.Nearest 0 0 := by
  simpa using of_valueAt (f := f) (p := 0) (by simp)

theorem neg (h : f.Nearest x p) : f.Nearest (-x) (-p) where
  in_range := by rw [abs_neg]; exact h.in_range
  lower hp := by
    obtain ⟨h1, h2⟩ := h.upper (by omega)
    rw [midpoint_neg, even_neg, neg_inj]
    exact ⟨neg_le_neg h1, fun e => h2 e.symm⟩
  upper hp := by
    obtain ⟨h1, h2⟩ := h.lower (by omega)
    have e := f.midpoint_neg (p - 1)
    rw [show -(p - 1) - 1 = -p by ring] at e
    rw [e, even_neg, neg_inj]
    exact ⟨neg_le_neg h1, fun e => h2 e.symm⟩

/-- The side of a place on which a number is, is the side on which it is rounded. -/
theorem le_of_le_valueAt (h : f.Nearest x p) (hq : |q| ≤ f.top) (hx : x ≤ f.valueAt q) : p ≤ q :=
  h.mono (of_valueAt hq) hx

theorem le_of_valueAt_le (h : f.Nearest x p) (hq : |q| ≤ f.top) (hx : f.valueAt q ≤ x) : q ≤ p :=
  (of_valueAt hq).mono h hx

theorem pos (h : f.Nearest x p) (hp : 0 < p) : 0 < x := by
  by_contra hneg
  have hle := h.le_of_le_valueAt (q := 0) (by simp) (by simpa using hneg)
  omega

/-- An even place is reached from the midpoint before it on. -/
theorem le_iff_midpoint_le (h : f.Nearest x p) (hlow : -f.top < q) (hup : q ≤ f.top)
    (heven : Even q) : q ≤ p ↔ f.midpoint (q - 1) ≤ x := by
  have hmono := f.midpoint_strictMono
  constructor
  · intro hle
    exact (hmono.monotone (by omega)).trans (h.lower (by omega)).1
  · intro hx
    by_contra hlt
    obtain ⟨hle, htie⟩ := h.upper (by omega)
    have hmid : f.midpoint p ≤ f.midpoint (q - 1) := hmono.monotone (by omega)
    -- only the midpoint itself is left, and that is rounded to the even one of its two places
    obtain rfl : p = q - 1 := hmono.injective (by linarith)
    exact Int.even_sub_one.1 (htie (by linarith)) heven

/-- What is on the grid is only rounded to another place if that is infinity. -/
theorem eq_of_valueAt (h : f.Nearest (f.valueAt q) p) (hp : |p| < f.top) : p = q := by
  obtain ⟨hp1, hp2⟩ := abs_lt.1 hp
  by_cases hq : |q| ≤ f.top
  · exact h.unique (of_valueAt hq)
  · rcases lt_abs.1 (not_le.1 hq) with hgt | hlt
    · have hle := h.le_of_valueAt_le (q := f.top) (by simp)
        (f.valueAt_strictMono.monotone hgt.le)
      omega
    · have hle := h.le_of_le_valueAt (q := -f.top) (by simp)
        (f.valueAt_strictMono.monotone (show q ≤ -f.top by omega))
      omega

/-- No place is closer. -/
theorem abs_sub_le (h : f.Nearest x p) (hq : |q| ≤ f.top) :
    |f.valueAt p - x| ≤ |f.valueAt q - x| := by
  have hp := abs_le.1 h.in_range
  have hq := abs_le.1 hq
  have hmono := f.valueAt_strictMono.monotone
  rcases lt_trichotomy p q with hlt | rfl | hlt
  · have hmid := (h.upper (by omega)).1
    have hnext : f.valueAt (p + 1) ≤ f.valueAt q := hmono (by omega)
    have hle : f.valueAt p ≤ f.valueAt q := hmono hlt.le
    unfold midpoint at hmid
    refine le_trans (abs_le.2 ⟨?_, ?_⟩) (le_abs_self _) <;> linarith
  · exact le_rfl
  · have hmid := (h.lower (by omega)).1
    have hprev : f.valueAt q ≤ f.valueAt (p - 1) := hmono (by omega)
    have hle : f.valueAt q ≤ f.valueAt p := hmono hlt.le
    rw [midpoint, sub_add_cancel] at hmid
    refine le_trans (abs_le.2 ⟨?_, ?_⟩) (neg_le_abs _) <;> linarith

/-- Numbers that no midpoint tells apart are rounded alike. -/
theorem congr (h : f.Nearest x p)
    (hxy : ∀ r, (f.midpoint r ≤ x ↔ f.midpoint r ≤ y) ∧ (x ≤ f.midpoint r ↔ y ≤ f.midpoint r)) :
    f.Nearest y p where
  in_range := h.in_range
  lower hp := by
    obtain ⟨h1, h2⟩ := h.lower hp
    refine ⟨(hxy _).1.1 h1, fun e => h2 (le_antisymm h1 ((hxy _).2.2 e.ge))⟩
  upper hp := by
    obtain ⟨h1, h2⟩ := h.upper hp
    refine ⟨(hxy _).2.1 h1, fun e => h2 (le_antisymm h1 ((hxy _).1.2 e.ge))⟩

end Nearest

/-! ## The rank that is computed -/

/-- The magnitude that is a number of steps of a scale. -/
theorem valueAt_steps (f : Format) {s m : Nat} (hm : m ≤ 2 * f.leading)
    (hs : s = 0 ∨ f.leading ≤ m) :
    f.valueAt ((s * f.leading + m : Nat) : Int) = m * 2 ^ s * f.unit := by
  rw [valueAt_natCast, units_steps f hm hs]
  push_cast; ring

theorem midpoint_natCast (f : Format) (r : Nat) :
    f.midpoint r = (2 * f.significand r + 1) * 2 ^ f.scale r * f.unit / 2 := by
  have e := f.valueAt_natCast (r + 1)
  push_cast at e
  unfold midpoint
  rw [e, valueAt_natCast, units_succ, units_eq]
  push_cast; ring

/-- Halfway to the next step of a scale. -/
theorem midpoint_steps (f : Format) {s m : Nat} (hm : m < 2 * f.leading)
    (hs : s = 0 ∨ f.leading ≤ m) :
    f.midpoint ((s * f.leading + m : Nat) : Int) = (2 * m + 1) * 2 ^ s * f.unit / 2 := by
  have e := f.valueAt_steps (s := s) (m := m + 1) (by omega) (by omega)
  unfold midpoint
  rw [f.valueAt_steps hm.le hs,
    show ((s * f.leading + m : Nat) : Int) + 1 = ((s * f.leading + (m + 1) : Nat) : Int) by
      push_cast; ring, e]
  push_cast; ring

/-- `y` steps of a scale are rounded to `m` of them, and the scale is the finest for which a full
significand holds `y`. -/
structure RoundedSteps (f : Format) (s m : Nat) (y : ℚ) : Prop extends IsHalfEven m y where
  nonneg : 0 ≤ y
  lt : y < 2 * f.leading
  full : s = 0 ∨ (f.leading : ℚ) ≤ y

namespace RoundedSteps

variable {s m : Nat}

theorem le (h : f.RoundedSteps s m y) : m ≤ 2 * f.leading := by
  have : (2 * m : ℚ) < 2 * (2 * f.leading) + 1 := by linarith [h.lower, h.lt]
  have : 2 * m < 2 * (2 * f.leading) + 1 := by exact_mod_cast this
  omega

theorem full_nat (h : f.RoundedSteps s m y) : s = 0 ∨ f.leading ≤ m := by
  apply h.full.imp_right
  intro hL
  have : (2 * f.leading : ℚ) ≤ 2 * m + 1 := by linarith [h.upper]
  have : 2 * f.leading ≤ 2 * m + 1 := by exact_mod_cast this
  omega

theorem even_rank (h : Even m) : Even ((s * f.leading + m : Nat) : Int) :=
  (Int.even_coe_nat _).2 ((f.even_leading.mul_left s).add h)

theorem step_pos (f : Format) (s : Nat) : 0 < 2 ^ s * f.unit := mul_pos (by positivity) f.unit_pos

/-- The midpoint below the rounded number of steps is half a step away, or less where the scale
gets finer. -/
theorem midpoint_pred_le (h : f.RoundedSteps s m y) (hpos : 0 < s * f.leading + m) :
    f.midpoint (((s * f.leading + m : Nat) : Int) - 1) ≤ y * 2 ^ s * f.unit ∧
      (f.midpoint (((s * f.leading + m : Nat) : Int) - 1) = y * 2 ^ s * f.unit →
        Even ((s * f.leading + m : Nat) : Int)) := by
  have hu := step_pos f s
  by_cases hcase : s = 0 ∨ f.leading < m
  · have hm1 : 1 ≤ m := by
      rcases hcase with rfl | h <;> omega
    have e := f.midpoint_steps (s := s) (m := m - 1) (by have := h.le; omega) (by omega)
    rw [show ((s * f.leading + (m - 1) : Nat) : Int) = ((s * f.leading + m : Nat) : Int) - 1 by
      omega, Nat.cast_sub hm1, Nat.cast_one] at e
    rw [e]
    constructor
    · nlinarith [h.lower]
    · intro ht
      refine even_rank (h.even (.inl ?_))
      have : (2 * ((m : ℚ) - 1) + 1) * (2 ^ s * f.unit) = 2 * y * (2 ^ s * f.unit) := by linarith
      have := mul_right_cancel₀ hu.ne' this
      linarith
  · -- the least full significand of a scale is not above what it is rounded from
    obtain ⟨hs0, hle⟩ : s ≠ 0 ∧ m ≤ f.leading := by omega
    have hLy := h.full.resolve_left hs0
    obtain rfl : m = f.leading := by have := h.full_nat; omega
    have hlt : f.midpoint (((s * f.leading + f.leading : Nat) : Int) - 1) < y * 2 ^ s * f.unit := by
      refine lt_of_lt_of_le (f.midpoint_pred_lt_valueAt _) ?_
      rw [f.valueAt_steps h.le h.full_nat, mul_assoc, mul_assoc]
      exact mul_le_mul_of_nonneg_right hLy hu.le
    exact ⟨hlt.le, fun ht => absurd ht hlt.ne⟩

theorem le_midpoint (h : f.RoundedSteps s m y) :
    y * 2 ^ s * f.unit ≤ f.midpoint ((s * f.leading + m : Nat) : Int) ∧
      (y * 2 ^ s * f.unit = f.midpoint ((s * f.leading + m : Nat) : Int) →
        Even ((s * f.leading + m : Nat) : Int)) := by
  have hu := step_pos f s
  rcases Nat.lt_or_eq_of_le h.le with hlt | rfl
  · rw [f.midpoint_steps hlt h.full_nat]
    constructor
    · nlinarith [h.upper]
    · intro ht
      refine even_rank (h.even (.inr ?_))
      have : 2 * y * (2 ^ s * f.unit) = (2 * (m : ℚ) + 1) * (2 ^ s * f.unit) := by linarith
      exact mul_right_cancel₀ hu.ne' this
  · have hlt : y * 2 ^ s * f.unit < f.midpoint ((s * f.leading + 2 * f.leading : Nat) : Int) := by
      refine lt_trans ?_ (f.valueAt_lt_midpoint _)
      rw [f.valueAt_steps h.le h.full_nat, mul_assoc, mul_assoc]
      refine mul_lt_mul_of_pos_right ?_ hu
      push_cast
      exact h.lt
    exact ⟨hlt.le, fun ht => absurd ht hlt.ne⟩

/-- Rounding to a whole number of steps of the right scale rounds to the grid. -/
theorem nearest (h : f.RoundedSteps s m y) :
    f.Nearest (y * 2 ^ s * f.unit) ((Nat.min (s * f.leading + m) f.top : Nat) : Int) := by
  have htop := f.top_pos
  rcases le_or_gt (s * f.leading + m) f.top with hle | hgt
  · rw [show Nat.min (s * f.leading + m) f.top = s * f.leading + m from Nat.min_eq_left hle]
    refine ⟨by rw [Nat.abs_cast]; exact_mod_cast hle, fun _ => ?_, fun _ => h.le_midpoint⟩
    rcases Nat.eq_zero_or_pos (s * f.leading + m) with h0 | hpos
    · have hneg : f.midpoint (((0 : Nat) : Int) - 1) < 0 := by
        simpa using f.midpoint_pred_lt_valueAt 0
      have hy : 0 ≤ y * 2 ^ s * f.unit := by
        rw [mul_assoc]; exact mul_nonneg h.nonneg (step_pos f s).le
      rw [h0]
      exact ⟨by linarith, fun ht => by linarith⟩
    · exact h.midpoint_pred_le hpos
  · -- what is past the greatest finite magnitude is past the midpoint below infinity
    rw [show Nat.min (s * f.leading + m) f.top = f.top from Nat.min_eq_right hgt.le]
    refine ⟨by rw [Nat.abs_cast], fun _ => ?_, fun ht => absurd ht (lt_irrefl _)⟩
    have hlt : f.midpoint ((f.top : Int) - 1) < y * 2 ^ s * f.unit :=
      lt_of_lt_of_le (f.midpoint_strictMono (by omega)) (h.midpoint_pred_le (by omega)).1
    exact ⟨hlt.le, fun ht => absurd ht hlt.ne⟩

end RoundedSteps

/-- The number of steps that `n * 2 ^ e` units are, on the scale on which they are rounded. -/
theorem roundedSteps_bounds (f : Format) {n : Nat} (h : n ≠ 0) {e : Int} {s : Nat}
    (hs : ((n.log2 : Int) + e - f.fractionBits).toNat = s) :
    (n : ℚ) * 2 ^ (e - s) < 2 * f.leading ∧ (s = 0 ∨ (f.leading : ℚ) ≤ n * 2 ^ (e - s)) := by
  have hlow : (2 : ℚ) ^ n.log2 ≤ n := by exact_mod_cast Nat.log2_self_le h
  have hup : (n : ℚ) < 2 ^ (n.log2 + 1) := by exact_mod_cast Nat.lt_log2_self
  have hL : (f.leading : ℚ) = 2 ^ f.fractionBits := by rw [leading_eq_pow]; push_cast; rfl
  constructor
  · calc (n : ℚ) * 2 ^ (e - s) < 2 ^ (n.log2 + 1) * 2 ^ (e - s) :=
          mul_lt_mul_of_pos_right hup (by positivity)
      _ = 2 ^ ((n.log2 + 1 : Nat) + (e - s)) := by rw [zpow_add₀ two_ne_zero, zpow_natCast]
      _ ≤ 2 ^ ((f.fractionBits + 1 : Nat) : Int) :=
          zpow_le_zpow_right₀ one_le_two (by push_cast; omega)
      _ = 2 * f.leading := by rw [hL, zpow_natCast, pow_succ, mul_comm]
  · rw [or_iff_not_imp_left]
    intro h0
    calc (f.leading : ℚ) = 2 ^ ((n.log2 : Int) + (e - s)) := by
          rw [hL, ← zpow_natCast]; congr 1; omega
      _ = 2 ^ n.log2 * 2 ^ (e - s) := by rw [zpow_add₀ two_ne_zero, zpow_natCast]
      _ ≤ n * 2 ^ (e - s) := mul_le_mul_of_nonneg_right hlow (by positivity)

/-- The rank that is computed for `n * 2 ^ e` units is the place nearest to that number. -/
theorem nearest_rankNearest (f : Format) (n : Nat) (e : Int) :
    f.Nearest (n * 2 ^ e * f.unit) (f.rankNearest n e) := by
  unfold rankNearest
  split
  · rename_i h
    simpa [h] using Nearest.zero (f := f)
  · rename_i h
    dsimp only
    generalize hs : ((n.log2 : Int) + e - f.fractionBits).toNat = s
    obtain ⟨hlt, hfull⟩ := f.roundedSteps_bounds h hs
    have hy : (n : ℚ) * 2 ^ e * f.unit = n * 2 ^ (e - s) * 2 ^ s * f.unit := by
      have : (2 : ℚ) ^ e = 2 ^ (e - s) * 2 ^ s := by
        rw [← zpow_natCast, ← zpow_add₀ two_ne_zero, sub_add_cancel]
      rw [this]; ring
    rw [hy]
    refine RoundedSteps.nearest ⟨?_, by positivity, hlt, hfull⟩
    split
    · -- nothing is cut off
      have e1 : (n : ℚ) * 2 ^ (e - s) = (n <<< (-((s : Int) - e)).toNat : Nat) := by
        rw [Nat.shiftLeft_eq, Nat.cast_mul, Nat.cast_pow, Nat.cast_ofNat, ← zpow_natCast]
        congr 2
        omega
      rw [e1]
      exact IsHalfEven.natCast _
    · have e1 : (n : ℚ) * 2 ^ (e - s) = n / 2 ^ ((s : Int) - e).toNat := by
        rw [div_eq_mul_inv, ← zpow_natCast, ← zpow_neg]
        congr 2
        omega
      rw [e1]
      exact isHalfEven_halfEven n _

/-! ## Numbers with more digits than a significand -/

/-- Between neighboring multiples of a power of two that a full significand does not need, there is
no midpoint. -/
theorem midpoint_gap (f : Format) {q : Nat} (hq : 2 * f.leading ≤ q) (t r : Int) :
    f.midpoint r ≤ q * 2 ^ t * f.unit ∨ (q + 1) * 2 ^ t * f.unit ≤ f.midpoint r := by
  have hu := f.unit_pos
  have ht : (0 : ℚ) < 2 ^ t := by positivity
  rcases le_or_gt 0 r with h | h
  · lift r to ℕ using h
    rw [midpoint_natCast]
    have hm : (2 * f.significand r + 1 : ℚ) ≤ 2 * q := by
      have := f.significand_lt r
      exact_mod_cast (show 2 * f.significand r + 1 ≤ 2 * q by omega)
    rcases le_or_gt (f.scale r : Int) t with hst | hst
    · have hpow : (2 : ℚ) ^ f.scale r ≤ 2 ^ t := by
        rw [← zpow_natCast]; exact zpow_le_zpow_right₀ one_le_two hst
      have : (2 * f.significand r + 1 : ℚ) * 2 ^ f.scale r ≤ 2 * q * 2 ^ t :=
        mul_le_mul hm hpow (by positivity) (by positivity)
      left
      nlinarith
    · -- on a coarser scale the midpoint is one of the multiples
      obtain ⟨k, hk⟩ := Int.eq_ofNat_of_zero_le (show 0 ≤ (f.scale r : Int) - 1 - t by omega)
      have hpow : (2 : ℚ) ^ f.scale r = 2 * 2 ^ k * 2 ^ t := by
        rw [← zpow_natCast, ← zpow_natCast, ← zpow_one_add₀ two_ne_zero, ← zpow_add₀ two_ne_zero]
        congr 1; omega
      rw [hpow, show (2 * f.significand r + 1 : ℚ) * (2 * 2 ^ k * 2 ^ t) * f.unit / 2 =
        ((2 * f.significand r + 1) * 2 ^ k : Nat) * 2 ^ t * f.unit by push_cast; ring]
      generalize (2 * f.significand r + 1) * 2 ^ k = j
      rcases Nat.lt_or_ge q j with hj | hj
      · right
        have : (q + 1 : ℚ) ≤ j := by exact_mod_cast hj
        gcongr
      · left
        have : (j : ℚ) ≤ q := by exact_mod_cast hj
        gcongr
  · left
    have h1 : f.midpoint r ≤ f.midpoint (0 - 1) := f.midpoint_strictMono.monotone (by omega)
    have h2 := f.midpoint_pred_lt_valueAt 0
    rw [valueAt_zero] at h2
    have : 0 ≤ q * 2 ^ t * f.unit := by positivity
    linarith

/-- Numbers between the same two of these multiples are rounded alike. -/
theorem Nearest.of_between {q : Nat} (hq : 2 * f.leading ≤ q) {t : Int} {y z : ℚ}
    (hy : q < y ∧ y < q + 1) (hz : q < z ∧ z < q + 1)
    (h : f.Nearest (y * 2 ^ t * f.unit) p) : f.Nearest (z * 2 ^ t * f.unit) p := by
  have hu := f.unit_pos
  have ht : (0 : ℚ) < 2 ^ t := by positivity
  have hpos : (0 : ℚ) < 2 ^ t * f.unit := mul_pos ht hu
  have key : ∀ {w : ℚ}, q < w ∧ w < q + 1 →
      q * 2 ^ t * f.unit < w * 2 ^ t * f.unit ∧ w * 2 ^ t * f.unit < (q + 1) * 2 ^ t * f.unit :=
    fun hw => ⟨by nlinarith [hw.1], by nlinarith [hw.2]⟩
  have ky := key hy
  have kz := key hz
  apply h.congr
  intro r
  rcases f.midpoint_gap hq t r with hr | hr <;> constructor <;> constructor <;> intro _ <;> linarith

end Format

end HitTest
