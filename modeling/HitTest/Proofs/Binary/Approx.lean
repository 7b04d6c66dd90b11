import HitTest.Proofs.Binary.Magnitude
import HitTest.Proofs.Binary.Roundoff

/-!
# Accumulated roundoff

What a computation returns is compared with the exact result of the same operations, by an error
that counts the roundings on the way to it and measures them by the result of the operations on the
magnitudes of the operands. Sums cancel and magnitudes do not, so the error is not relative to the
exact result; it is relative to the magnitude, which grows by the least number with a full
significand in every product, for that may underflow.
-/

namespace HitTest

namespace Format

variable {f : Format} {j k : Nat}

/-- The share by which `k` roundings may change a number. -/
def growth (f : Format) (k : Nat) : ℚ := (1 + f.roundoff) ^ k - 1

theorem one_add_growth (f : Format) (k : Nat) : 1 + f.growth k = (1 + f.roundoff) ^ k :=
  add_sub_cancel 1 _

theorem growth_nonneg (f : Format) (k : Nat) : 0 ≤ f.growth k :=
  sub_nonneg.2 (one_le_pow₀ (by linarith [f.roundoff_pos]))

theorem growth_mono (f : Format) (h : j ≤ k) : f.growth j ≤ f.growth k :=
  sub_le_sub_right (pow_le_pow_right₀ (by linarith [f.roundoff_pos]) h) 1

theorem growth_zero (f : Format) : f.growth 0 = 0 := by
  rw [growth, pow_zero, sub_self]

/-- One rounding more. -/
theorem growth_succ (f : Format) (k : Nat) :
    f.growth (k + 1) = f.growth k + f.roundoff * (1 + f.growth k) := by
  rw [one_add_growth, growth, growth, pow_succ]
  ring

/-- The roundings of a product are those of its factors. -/
theorem growth_add (f : Format) (j k : Nat) :
    f.growth (j + k) = f.growth j + f.growth k + f.growth j * f.growth k := by
  unfold growth
  rw [pow_add]
  ring

theorem mul_roundoff_le_growth (f : Format) (k : Nat) : k * f.roundoff ≤ f.growth k := by
  have h := one_add_mul_le_pow (by linarith [f.roundoff_pos] : (-2 : ℚ) ≤ f.roundoff) k
  rw [growth]
  linarith

/-- A number of roundings that is small against the significand adds up to hardly more than that
many times the roundoff. -/
theorem growth_le (f : Format) (hk : k ≤ 1000) : f.growth k ≤ 1001 / 1000 * (k * f.roundoff) := by
  have hu := f.roundoff_pos
  have hk' : (k : ℚ) ≤ 1000 := by exact_mod_cast hk
  have hsmall : k * f.roundoff ≤ 1 / 1001 := by
    have := mul_le_mul hk' f.roundoff_le hu.le (by norm_num)
    linarith
  have hinverse : (1 + f.roundoff) ^ k * (1 - k * f.roundoff) ≤ 1 := by
    have hu1 : f.roundoff ≤ 1 := f.roundoff_le.trans (by norm_num)
    calc (1 + f.roundoff) ^ k * (1 - k * f.roundoff)
        ≤ (1 + f.roundoff) ^ k * (1 - f.roundoff) ^ k := by
          refine mul_le_mul_of_nonneg_left ?_ (by positivity)
          have h := one_add_mul_le_pow (by linarith : (-2 : ℚ) ≤ -f.roundoff) k
          rwa [mul_neg, ← sub_eq_add_neg, ← sub_eq_add_neg] at h
      _ = (1 - f.roundoff ^ 2) ^ k := by rw [← mul_pow]; ring
      _ ≤ 1 := pow_le_one₀ (by nlinarith) (by nlinarith)
  rw [← one_add_growth] at hinverse
  nlinarith [f.growth_nonneg k]

theorem growth_le_thousandth (f : Format) (hk : k ≤ 1000) : f.growth k ≤ 1 / 1000 := by
  have hle := f.growth_le hk
  have hk' : (k : ℚ) ≤ 1000 := by exact_mod_cast hk
  have hmul := mul_le_mul hk' f.roundoff_le f.roundoff_pos.le (by norm_num)
  linarith

theorem leastFull_le_roundoff (f : Format) : f.leastFull ≤ f.roundoff := by
  cases f <;> decide +kernel

/-- A reciprocal of a finite number does not underflow by much. -/
theorem leastFull_mul_valueAt_top (f : Format) : f.leastFull * f.valueAt f.top = 4 := by
  have hsum : (f.fractionBits : Int) + f.unitExponent + f.exponentBound = 2 := by
    cases f <;> decide
  rw [leastFull, leading_eq_pow, unit, valueAt_top_eq]
  push_cast
  rw [← zpow_natCast, ← zpow_natCast, ← zpow_add₀ two_ne_zero, ← zpow_add₀ two_ne_zero, hsum]
  norm_num

end Format

namespace Binary

variable {f : Format} {x y z w d : Binary f} {a b m n : ℚ} {j k : Nat}

/-- A finite number that is the result of at most `k` roundings in a row, in place of the exact `a`,
where the operations on magnitudes lead to `m`. -/
structure Approx (k : Nat) (a m : ℚ) (x : Binary f) : Prop where
  isFinite : x.IsFinite
  bound : |a| ≤ m
  error : |x.value - a| ≤ f.growth k * m

namespace Approx

protected theorem self (hx : x.IsFinite) : Approx 0 x.value |x.value| x :=
  ⟨hx, le_rfl, by rw [sub_self, abs_zero, f.growth_zero, zero_mul]⟩

theorem nonneg (h : Approx k a m x) : 0 ≤ m := (abs_nonneg a).trans h.bound

theorem mono (h : Approx j a m x) (hk : j ≤ k) (hm : m ≤ n) : Approx k a n x where
  isFinite := h.isFinite
  bound := h.bound.trans hm
  error := h.error.trans (mul_le_mul (f.growth_mono hk) hm h.nonneg (f.growth_nonneg k))

theorem abs_value_le (h : Approx k a m x) : |x.value| ≤ (1 + f.growth k) * m := by
  have herror := h.error
  have htriangle := abs_add_le a (x.value - a)
  rw [add_sub_cancel] at htriangle
  linarith [h.bound]

theorem neg (h : Approx k a m x) : Approx k (-a) m (-x) where
  isFinite := h.isFinite.neg
  bound := by rw [abs_neg]; exact h.bound
  error := by rw [value_neg, neg_sub_neg, abs_sub_comm]; exact h.error

theorem abs (h : Approx k a m x) : Approx k |a| m x.abs where
  isFinite := by
    rw [IsFinite, isNumber_abs, place_abs, abs_abs]
    exact h.isFinite
  bound := by rw [abs_abs]; exact h.bound
  error := by rw [value_abs]; exact (abs_abs_sub_abs_le _ _).trans h.error

/-- What is rounded once more. -/
theorem of_error (hz : z.IsFinite) (hb : |b| ≤ m) (hexact : |a - b| ≤ f.growth k * m)
    (hround : |z.value - a| ≤ f.roundoff * ((1 + f.growth k) * m)) : Approx (k + 1) b m z := by
  refine ⟨hz, hb, ?_⟩
  have htriangle := abs_add_le (z.value - a) (a - b)
  rw [sub_add_sub_cancel] at htriangle
  rw [f.growth_succ]
  linarith

/-- A sum is rounded relative to itself. -/
theorem add (hx : Approx k a m x) (hy : Approx k b n y) (h : (x + y).IsFinite) :
    Approx (k + 1) (a + b) (m + n) (x + y) := by
  have hexact : |x.value + y.value - (a + b)| ≤ f.growth k * (m + n) := by
    rw [add_sub_add_comm, mul_add]
    exact (abs_add_le _ _).trans (add_le_add hx.error hy.error)
  have hvalues : |x.value + y.value| ≤ (1 + f.growth k) * (m + n) := by
    rw [mul_add]
    exact (abs_add_le _ _).trans (add_le_add hx.abs_value_le hy.abs_value_le)
  exact of_error h ((abs_add_le a b).trans (add_le_add hx.bound hy.bound)) hexact
    ((add_error hx.isFinite hy.isFinite h).trans
      (mul_le_mul_of_nonneg_left hvalues f.roundoff_pos.le))

theorem sub (hx : Approx k a m x) (hy : Approx k b n y) (h : (x - y).IsFinite) :
    Approx (k + 1) (a - b) (m + n) (x - y) := by
  rw [sub_eq_add_neg]
  exact hx.add hy.neg h

/-- A difference of numbers is rounded relative to itself. -/
theorem difference (hx : x.IsFinite) (hy : y.IsFinite) (h : (x - y).IsFinite) :
    Approx 1 (x.value - y.value) |x.value - y.value| (x - y) where
  isFinite := h
  bound := le_rfl
  error := by
    rw [Format.growth, pow_one, add_sub_cancel_left]
    exact sub_error hx hy h

/-- A product may underflow. -/
theorem mul (hx : Approx j a m x) (hy : Approx k b n y) (h : (x * y).IsFinite) :
    Approx (j + k + 1) (a * b) (m * n + f.leastFull) (x * y) := by
  have hl := f.leastFull_pos
  have hg := f.growth_nonneg (j + k)
  have hmn := mul_nonneg hx.nonneg hy.nonneg
  have hbound : |a * b| ≤ m * n := by
    rw [abs_mul]
    exact mul_le_mul hx.bound hy.bound (abs_nonneg b) hx.nonneg
  have hvalues : |x.value * y.value| ≤ (1 + f.growth (j + k)) * (m * n) := by
    have hle := mul_le_mul hx.abs_value_le hy.abs_value_le (abs_nonneg _)
      ((abs_nonneg _).trans hx.abs_value_le)
    rw [abs_mul, f.growth_add]
    linarith
  have hexact : |x.value * y.value - a * b| ≤ f.growth (j + k) * (m * n) := by
    have hsplit : x.value * y.value - a * b =
        (x.value - a) * b + a * (y.value - b) + (x.value - a) * (y.value - b) := by ring
    have hm := mul_nonneg (f.growth_nonneg j) hx.nonneg
    have h1 := mul_le_mul hx.error hy.bound (abs_nonneg b) hm
    have h2 := mul_le_mul hx.bound hy.error (abs_nonneg _) hx.nonneg
    have h3 := mul_le_mul hx.error hy.error (abs_nonneg _) hm
    have htriangle := abs_add_three ((x.value - a) * b) (a * (y.value - b))
      ((x.value - a) * (y.value - b))
    rw [abs_mul, abs_mul a, abs_mul (x.value - a)] at htriangle
    rw [hsplit, f.growth_add]
    linarith
  have hround := ((rounds_mul hx.isFinite hy.isFinite).error h).1
  have hgl := mul_nonneg hg hl.le
  have hgmn := mul_nonneg hg hmn
  exact of_error h (by linarith) (by linarith) (hround.trans (mul_le_mul_of_nonneg_left
    (max_le (by linarith) (by linarith)) f.roundoff_pos.le))

/-- A reciprocal, of what is not so close to zero that it overflows. -/
theorem reciprocal (hd : d.IsFinite) (hbig : ¬ d.abs ≤ minPositive) :
    Approx 4 (1 / d.value) (1 / |d.value|) (1 / d) := by
  obtain ⟨hround, hfin, -, -⟩ := reciprocal_spec hd hbig
  have h0 : 0 < |d.value| :=
    abs_pos.2 fun h => hbig (abs_le_minPositive_of_value_eq_zero hd.1 h)
  have hleast : f.leastFull ≤ 4 * (1 / |d.value|) := by
    have hlt := mul_le_mul_of_nonneg_left hd.abs_value_lt.le f.leastFull_pos.le
    rw [f.leastFull_mul_valueAt_top] at hlt
    rwa [mul_one_div, le_div_iff₀ h0]
  have habs : |1 / d.value| = 1 / |d.value| := by rw [abs_div, abs_one]
  have h1 : 0 ≤ 1 / |d.value| := by positivity
  have hgrowth := mul_le_mul_of_nonneg_right (f.mul_roundoff_le_growth 4) h1
  refine ⟨hfin, habs.le, (hround.error hfin).1.trans ?_⟩
  have hmax : Max.max |1 / d.value| f.leastFull ≤ 4 * (1 / |d.value|) :=
    max_le (by rw [habs]; linarith) hleast
  have := mul_le_mul_of_nonneg_left hmax f.roundoff_pos.le
  push_cast at hgrowth
  linarith

/-- A quotient may underflow. -/
theorem quotient (hx : x.IsFinite) (hd : d.IsFinite) (h0 : d.value ≠ 0) (h : (x / d).IsFinite) :
    Approx 1 (x.value / d.value) (|x.value| / |d.value| + f.leastFull) (x / d) := by
  have hl := f.leastFull_pos
  have hq : |x.value / d.value| = |x.value| / |d.value| := abs_div _ _
  have h1 : 0 ≤ |x.value| / |d.value| := by positivity
  refine ⟨h, by linarith, ((rounds_div hx hd h0).error h).1.trans ?_⟩
  rw [Format.growth, pow_one, add_sub_cancel_left]
  exact mul_le_mul_of_nonneg_left (max_le (by linarith) (by linarith)) f.roundoff_pos.le

/-- A difference of two products. -/
theorem mul_sub_mul (h : (x * y - z * w).IsFinite) :
    Approx 2 (x.value * y.value - z.value * w.value)
      (|x.value| * |y.value| + |z.value| * |w.value| + 2 * f.leastFull) (x * y - z * w) := by
  obtain ⟨hxy, hzw⟩ := isFinite_of_sub h
  obtain ⟨hx, hy⟩ := isFinite_of_mul hxy
  obtain ⟨hz, hw⟩ := isFinite_of_mul hzw
  refine (((Approx.self hx).mul (.self hy) hxy).sub ((Approx.self hz).mul (.self hw) hzw) h).mono
    le_rfl ?_
  linarith

/-- The error of a divisor, in terms of what a quotient by it is measured by. -/
theorem error_divisor (h : Approx k a m d) (h0 : d.value ≠ 0) :
    |d.value - a| ≤ f.growth k * (m / |d.value| + f.leastFull) * |d.value| := by
  have hcancel : (m / |d.value| + f.leastFull) * |d.value| = m + f.leastFull * |d.value| := by
    rw [add_mul, div_mul_cancel₀ m (abs_ne_zero.2 h0)]
  rw [mul_assoc, hcancel]
  exact h.error.trans (mul_le_mul_of_nonneg_left
    (le_add_of_nonneg_right (mul_nonneg f.leastFull_pos.le (abs_nonneg _))) (f.growth_nonneg k))

/-- What is multiplied by a reciprocal. -/
theorem reciprocal_mul (hd : d.IsFinite) (hbig : ¬ d.abs ≤ minPositive) (hx : Approx 5 a m x)
    (h : (1 / d * x).IsFinite) :
    Approx 10 (a / d.value) (m / |d.value| + f.leastFull) (1 / d * x) := by
  have hmul := (reciprocal hd hbig).mul hx h
  rwa [one_div_mul_eq_div, one_div_mul_eq_div] at hmul

end Approx

end Binary

/-! ## Vectors -/

namespace Vec3

open Binary

variable {f : Format} {a b c : Vec3 (Binary f)}

/-- The exact components. -/
def values (a : Vec3 (Binary f)) : Vec3 ℚ := a.map Binary.value

/-- The exact sum of the magnitudes of the components. -/
def extent (a : Vec3 (Binary f)) : ℚ := |a.x.value| + |a.y.value| + |a.z.value|

theorem extent_nonneg (a : Vec3 (Binary f)) : 0 ≤ a.extent := by
  unfold extent
  positivity

theorem pair_le_extent (a : Vec3 (Binary f)) : |a.y.value| + |a.z.value| ≤ a.extent ∧
    |a.z.value| + |a.x.value| ≤ a.extent ∧ |a.x.value| + |a.y.value| ≤ a.extent := by
  have hx := abs_nonneg a.x.value
  have hy := abs_nonneg a.y.value
  have hz := abs_nonneg a.z.value
  unfold extent
  exact ⟨by linarith, by linarith, by linarith⟩

/-- A size is computed from magnitudes. -/
theorem approx_norm1 {k : Nat} {x y z l m n : ℚ} (hx : Approx k x l a.x) (hy : Approx k y m a.y)
    (hz : Approx k z n a.z) (h : a.norm1.IsFinite) :
    Approx (k + 2) (|x| + |y| + |z|) (l + m + n) a.norm1 :=
  (hx.abs.add hy.abs (isFinite_of_add h).1).add (hz.abs.mono (Nat.le_succ k) le_rfl) h

/-- The components of a cross product are differences of products. -/
theorem approx_cross (h : (b.cross c).All IsFinite) :
    Approx 2 (b.values.cross c.values).x (b.extent * c.extent + 2 * f.leastFull) (b.cross c).x ∧
      Approx 2 (b.values.cross c.values).y (b.extent * c.extent + 2 * f.leastFull)
        (b.cross c).y ∧
      Approx 2 (b.values.cross c.values).z (b.extent * c.extent + 2 * f.leastFull)
        (b.cross c).z := by
  have hle : ∀ {w x y z : ℚ}, |w| + |y| ≤ b.extent → |z| + |x| ≤ c.extent →
      |w| * |x| + |y| * |z| + 2 * f.leastFull ≤ b.extent * c.extent + 2 * f.leastFull := by
    intro w x y z hb hc
    have hmul := mul_le_mul hb hc (by positivity) b.extent_nonneg
    have h1 := mul_nonneg (abs_nonneg w) (abs_nonneg z)
    have h2 := mul_nonneg (abs_nonneg y) (abs_nonneg x)
    linarith
  obtain ⟨hbx, hby, hbz⟩ := b.pair_le_extent
  obtain ⟨hcx, hcy, hcz⟩ := c.pair_le_extent
  exact ⟨(Approx.mul_sub_mul h.1).mono le_rfl (hle hbx hcx),
    (Approx.mul_sub_mul h.2.1).mono le_rfl (hle hby hcy),
    (Approx.mul_sub_mul h.2.2).mono le_rfl (hle hbz hcz)⟩

/-- The magnitudes of the exact components. -/
def magnitudes (a : Vec3 (Binary f)) : Vec3 ℚ := a.values.map (|·|)

theorem approx_self (ha : a.All IsFinite) (i : Axis) :
    Approx 0 (a.values.coord i) (a.magnitudes.coord i) (a.coord i) := by
  cases i with
  | x => exact .self ha.1
  | y => exact .self ha.2.1
  | z => exact .self ha.2.2

/-- An inner product of two vectors of components that are off. -/
theorem approx_dot {j k : Nat} {α β μ ν : Vec3 ℚ}
    (ha : ∀ i, Approx j (α.coord i) (μ.coord i) (a.coord i))
    (hb : ∀ i, Approx k (β.coord i) (ν.coord i) (b.coord i)) (h : (a.dot b).IsFinite) :
    Approx (j + k + 3) (α.dot β) (μ.dot ν + 3 * f.leastFull) (a.dot b) := by
  obtain ⟨hxy, hz⟩ := isFinite_of_add h
  obtain ⟨hx, hy⟩ := isFinite_of_add hxy
  have px := (ha .x).mul (hb .x) hx
  have py := (ha .y).mul (hb .y) hy
  have pz := (ha .z).mul (hb .z) hz
  refine ((px.add py hxy).add (pz.mono (Nat.le_succ _) le_rfl) h).mono le_rfl (le_of_eq ?_)
  simp only [coord, dot]
  ring

/-- The exact volume that three vectors span. -/
def volume (a b c : Vec3 (Binary f)) : ℚ := a.values.dot (b.values.cross c.values)

/-- What the roundoff of a volume is measured by. -/
def volumeExtent (a b c : Vec3 (Binary f)) : ℚ :=
  a.extent * b.extent * c.extent + f.leastFull * (2 * a.extent + 3)

/-- What the roundoff of a share of a determinant is measured by. -/
def shareExtent (a b c : Vec3 (Binary f)) (det : Binary f) : ℚ :=
  a.volumeExtent b c / |det.value| + f.leastFull

theorem approx_volume (h : (a.dot (b.cross c)).IsFinite) :
    Approx 5 (a.volume b c) (a.volumeExtent b c) (a.dot (b.cross c)) := by
  obtain ⟨ha, hcross⟩ := isFinite_of_dot h
  have hdot := approx_dot (approx_self ha) (Axis.forall_iff.2 (approx_cross hcross))
    (ν := .uniform _) h
  refine hdot.mono le_rfl (le_of_eq ?_)
  rw [volumeExtent, extent.eq_def a]
  simp only [dot, values, magnitudes, map, uniform]
  ring

/-- A share of a determinant, by way of its reciprocal. -/
theorem approx_share {det : Binary f} (hdet : det.IsFinite) (hbig : ¬ det.abs ≤ minPositive)
    (h : (1 / det * a.dot (b.cross c)).IsFinite) :
    Approx 10 (a.volume b c / det.value) (a.shareExtent b c det)
      (1 / det * a.dot (b.cross c)) :=
  .reciprocal_mul hdet hbig (approx_volume (isFinite_of_mul h).2) h

end Vec3

end HitTest
