import HitTest.Proofs.Binary.Nearest

/-!
# Multiples of a power of two

Differences of numbers on a coarse grid are on that grid again, and rounding does not leave it. So
what is not zero is at least one step of the grid, however often it was rounded on the way.
-/

namespace HitTest

namespace Format

variable {f : Format} {x y : ℚ} {p q : Int}

/-- Whole multiples of a power of two. -/
def IsMultiple (f : Format) (t : Nat) (x : ℚ) : Prop := ∃ n : Int, x = n * 2 ^ t * f.unit

namespace IsMultiple

variable {t : Nat}

theorem zero : f.IsMultiple t 0 := ⟨0, by simp⟩

theorem neg (h : f.IsMultiple t x) : f.IsMultiple t (-x) := by
  obtain ⟨n, rfl⟩ := h
  exact ⟨-n, by push_cast; ring⟩

theorem add (hx : f.IsMultiple t x) (hy : f.IsMultiple t y) : f.IsMultiple t (x + y) := by
  obtain ⟨n, rfl⟩ := hx
  obtain ⟨m, rfl⟩ := hy
  exact ⟨n + m, by push_cast; ring⟩

theorem sub (hx : f.IsMultiple t x) (hy : f.IsMultiple t y) : f.IsMultiple t (x - y) := by
  rw [sub_eq_add_neg]
  exact hx.add hy.neg

/-- A multiple above zero is at least the power itself. -/
theorem le_of_pos (h : f.IsMultiple t x) (hx : 0 < x) : 2 ^ t * f.unit ≤ x := by
  obtain ⟨n, rfl⟩ := h
  have hu : 0 < 2 ^ t * f.unit := mul_pos (by positivity) f.unit_pos
  have hn : (0 : ℚ) < n := by
    rw [mul_assoc] at hx
    exact pos_of_mul_pos_left hx hu.le
  have : (1 : ℚ) ≤ n := by exact_mod_cast Int.cast_pos.1 hn
  nlinarith

end IsMultiple

/-- What is rounded to a place is below the end of the scale of that place. -/
theorem Nearest.lt_steps {r : Nat} (h : f.Nearest x r) (hr : r < f.top) :
    x < 2 * f.leading * 2 ^ f.scale r * f.unit := by
  have h1 := (h.upper (by exact_mod_cast hr)).1
  rw [midpoint_natCast] at h1
  have hu := f.unit_pos
  have hm : (2 * f.significand r + 1 : ℚ) < 4 * f.leading := by
    have := f.significand_lt r
    exact_mod_cast (show 2 * f.significand r + 1 < 4 * f.leading by omega)
  calc x ≤ (2 * f.significand r + 1) * 2 ^ f.scale r * f.unit / 2 := h1
    _ < 4 * f.leading * 2 ^ f.scale r * f.unit / 2 := by gcongr
    _ = 2 * f.leading * 2 ^ f.scale r * f.unit := by ring

theorem Nearest.isMultiple_natCast {t r : Nat} (h : f.Nearest x r) (hr : r < f.top)
    (hx : f.IsMultiple t x) : f.IsMultiple t (f.valueAt r) := by
  rcases Nat.eq_zero_or_pos r with rfl | hpos
  · simpa using IsMultiple.zero
  rcases le_or_gt t (f.scale r) with ht | ht
  · -- the step at the place is a multiple itself
    refine ⟨f.significand r * 2 ^ (f.scale r - t), ?_⟩
    have hpow : (2 : ℚ) ^ f.scale r = 2 ^ (f.scale r - t) * 2 ^ t := by
      rw [← pow_add, Nat.sub_add_cancel ht]
    rw [valueAt_natCast, units_eq]
    push_cast
    rw [hpow]
    ring
  · -- the number has no more digits than a significand, hence is on the grid
    obtain ⟨n, rfl⟩ := hx
    have hu : 0 < 2 ^ t * f.unit := mul_pos (by positivity) f.unit_pos
    have hn0 : 0 < n := by
      have hx0 := h.pos (by exact_mod_cast hpos)
      rw [mul_assoc] at hx0
      exact_mod_cast pos_of_mul_pos_left hx0 hu.le
    have hn : n < 2 * f.leading := by
      have hunit := f.unit_pos
      have hlt : (n : ℚ) * (2 ^ t * f.unit) < 2 * f.leading * (2 ^ t * f.unit) :=
        calc (n : ℚ) * (2 ^ t * f.unit) = n * 2 ^ t * f.unit := by ring
          _ < 2 * f.leading * 2 ^ f.scale r * f.unit := h.lt_steps hr
          _ ≤ 2 * f.leading * 2 ^ t * f.unit := by gcongr; norm_num
          _ = 2 * f.leading * (2 ^ t * f.unit) := by ring
      exact_mod_cast lt_of_mul_lt_mul_right hlt hu.le
    obtain ⟨p, hp⟩ := f.exists_valueAt_of_multiple (t := t) (show n.natAbs ≤ 2 * f.leading by omega)
    rw [← hp] at h
    rw [h.eq_of_valueAt (by simpa using hr), hp]
    exact ⟨n, rfl⟩

/-- Rounding a multiple of a power of two to a finite number gives a multiple again. -/
theorem Nearest.isMultiple {t : Nat} (h : f.Nearest x p) (hp : |p| < f.top)
    (hx : f.IsMultiple t x) : f.IsMultiple t (f.valueAt p) := by
  rcases le_total 0 p with h0 | h0
  · lift p to ℕ using h0
    exact h.isMultiple_natCast (by simpa using hp) hx
  · obtain ⟨r, hr⟩ := Int.eq_ofNat_of_zero_le (show 0 ≤ -p by omega)
    have hneg := h.neg
    rw [hr] at hneg
    rw [← abs_neg, hr, Nat.abs_cast] at hp
    have := (hneg.isMultiple_natCast (by exact_mod_cast hp) hx.neg).neg
    rwa [← hr, valueAt_neg, neg_neg] at this

end Format

end HitTest
