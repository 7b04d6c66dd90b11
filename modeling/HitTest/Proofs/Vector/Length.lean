import HitTest.Proofs.Binary.Scaling
import HitTest.Proofs.Query.Start
import HitTest.Proofs.Vector.Turned

/-!
# Vectors divided by their length

Squares are summed, a root is taken, and the components are divided by it. Each of these is off
relative to its result, except for the squares, of which up to half a unit may underflow. So the
square of the length that is computed is close to the exact one, and the quotient has length one, as
far as the sum of squares is large against a unit. If that sum underflows to zero there is no length
to divide by, and if it overflows nothing is left of the quotient.
-/

namespace HitTest

open Binary hiding min max

variable {f : Format}

namespace Binary

variable {x z : Binary f} {a : ℚ}

/-- A root is off relative to itself. -/
theorem RoundsRoot.sq_bounds (h : RoundsRoot a z) (hz : z.IsFinite)
    (hleast : f.leastFull ≤ z.value) : ((1 - f.roundoff) * z.value) ^ 2 ≤ a ∧
      a ≤ ((1 + f.roundoff) * z.value) ^ 2 := by
  have hz0 := h.value_nonneg
  have herror : ∀ {b : ℚ}, Rounds b z → |z.value - b| ≤ f.roundoff * z.value := by
    intro b hb
    have hb := (hb.error hz).2
    rwa [abs_of_nonneg hz0, max_eq_left hleast] at hb
  obtain ⟨l, hl0, hla, hl⟩ := h.lower
  obtain ⟨b, hb0, hab, hb⟩ := h.upper
  have hu1 : f.roundoff ≤ 1 := f.roundoff_le.trans (by norm_num)
  have hlow := (abs_le.1 (herror hl)).2
  have hup := (abs_le.1 (herror hb)).1
  constructor
  · have h0 : 0 ≤ (1 - f.roundoff) * z.value := mul_nonneg (sub_nonneg.2 hu1) hz0
    calc ((1 - f.roundoff) * z.value) ^ 2 ≤ l ^ 2 := pow_le_pow_left₀ h0 (by linarith) 2
      _ ≤ a := by rwa [sq]
  · calc a ≤ b ^ 2 := by rwa [sq]
      _ ≤ ((1 + f.roundoff) * z.value) ^ 2 := pow_le_pow_left₀ hb0 (by linarith) 2

/-- The root of what is below the end of a format is not above the root of the end by much. -/
theorem RoundsRoot.value_le_pow (h : RoundsRoot a z) (hz : z.IsFinite)
    (hleast : f.leastFull ≤ z.value) (ha : a < f.valueAt f.top) :
    z.value ≤ 2 ^ (f.exponentBound / 2 + 1) := by
  have heven : f.exponentBound = f.exponentBound / 2 * 2 := by cases f <;> decide
  rw [f.valueAt_top_eq, heven, pow_mul] at ha
  have hroot := lt_of_pow_lt_pow_left₀ 2 (by positivity) ((h.sq_bounds hz hleast).1.trans_lt ha)
  have hhalf := mul_le_mul_of_nonneg_right (f.roundoff_le.trans (by norm_num :
    (1 : ℚ) / 2 ^ 24 ≤ 1 / 2)) h.value_nonneg
  rw [pow_succ]
  linarith

/-- A root above zero is large against the least number with a full significand. -/
theorem leastFull_le_sqrt (hx : x.IsFinite) (h0 : 0 ≤ x) (h : 0 < x.sqrt) :
    f.leastFull ≤ f.roundoff * x.sqrt.value := by
  have hroot := inv_two_pow_le_sqrt hx h0 h
  have hformat : f.leastFull ≤ f.roundoff * (2 ^ f.rootExponent)⁻¹ := by
    cases f <;> decide +kernel
  exact hformat.trans (mul_le_mul_of_nonneg_left hroot f.roundoff_pos.le)

/-- What is divided by infinity is zero. -/
theorem IsFinite.isZero_div_infinity (hx : x.IsFinite) : (x / infinity).IsZero := by
  cases x with
  | nan => cases hx.1
  | number s r hr =>
    have e : (number s r hr / infinity : Binary f) = signedZero (s != false) := by
      change (number s r hr).div infinity = _
      simp [div, infinity, signedInfinity, isFinite_number.1 hx]
    rw [e]
    exact isZero_iff.2 ⟨rfl, by rw [signedZero, value_number]; simp⟩

end Binary

/-! ## Estimates -/

namespace Format

variable {A B L M N l κ : ℚ}

/-- Half a unit is what the roundoff is to the least number with a full significand. -/
theorem roundoff_mul_leastFull (f : Format) : f.roundoff * f.leastFull = f.unit / 2 :=
  f.roundoff_mul_leading f.unit

/-- A sum of three squares is off relative to itself and by what may underflow. -/
theorem abs_sub_le_of_growth (h : |L - A| ≤ f.growth 3 * (A + 3 * f.leastFull)) (hL : 0 ≤ L) :
    |L - A| ≤ 301 / 100 * f.roundoff * L + 451 / 100 * f.unit := by
  have hg := f.growth_le (k := 3) (by norm_num)
  have hg1 := f.growth_le_thousandth (k := 3) (by norm_num)
  have hg0 := f.growth_nonneg 3
  have hl0 := f.leastFull_pos
  have hw0 := f.unit_pos
  have hunit := f.roundoff_mul_leastFull
  push_cast at hg
  have hunderflow : f.growth 3 * f.leastFull ≤ 1001 / 1000 * (3 / 2) * f.unit := by
    have := mul_le_mul_of_nonneg_right hg hl0.le
    linarith
  -- the sum itself is only known by what is computed for it
  have hA : A ≤ 1000 / 999 * (L + 4505 / 1000 * f.unit) := by
    have hsmall : f.growth 3 * A ≤ max 0 A / 1000 := by
      calc f.growth 3 * A ≤ f.growth 3 * max 0 A :=
            mul_le_mul_of_nonneg_left (le_max_right _ _) hg0
        _ ≤ 1 / 1000 * max 0 A := mul_le_mul_of_nonneg_right hg1 (le_max_left _ _)
        _ = max 0 A / 1000 := by ring
    have hle := (abs_le.1 h).1
    rcases le_total A 0 with hA0 | hA0
    · exact hA0.trans (by positivity)
    · rw [max_eq_right hA0] at hsmall
      linarith
  have hgA := mul_le_mul_of_nonneg_left hA hg0
  have hgL := mul_le_mul_of_nonneg_right hg hL
  have hgw := mul_le_mul_of_nonneg_right hg1 hw0.le
  have hu := mul_nonneg f.roundoff_pos.le hL
  linarith

/-- A root is off relative to itself, and so its square. -/
theorem abs_sub_sq_le (hlow : ((1 - f.roundoff) * l) ^ 2 ≤ L)
    (hup : L ≤ ((1 + f.roundoff) * l) ^ 2) : |L - l ^ 2| ≤ 201 / 100 * f.roundoff * l ^ 2 := by
  have hu := f.roundoff_pos
  have hsq : f.roundoff * f.roundoff * l ^ 2 ≤ 1 / 100 * f.roundoff * l ^ 2 :=
    mul_le_mul_of_nonneg_right (mul_le_mul_of_nonneg_right
      (f.roundoff_le.trans (by norm_num)) hu.le) (sq_nonneg l)
  have hsq0 : 0 ≤ f.roundoff * f.roundoff * l ^ 2 := by positivity
  have hl0 : 0 ≤ f.roundoff * l ^ 2 := by positivity
  exact abs_le.2 ⟨by linarith, by linarith⟩

/-- The exact square of a length, against the square of what is computed for the length. -/
theorem sq_length_bounds (hl : 0 < l) (hL : f.unit ≤ L)
    (hsum : |L - A| ≤ f.growth 3 * (A + 3 * f.leastFull))
    (hlow : ((1 - f.roundoff) * l) ^ 2 ≤ L) (hup : L ≤ ((1 + f.roundoff) * l) ^ 2) :
    A ≤ 6 * l ^ 2 ∧
      |A / l ^ 2 - 1| ≤ 503 / 100 * f.roundoff + 452 / 100 * (f.unit / L) := by
  have hL0 := f.unit_pos.trans_le hL
  have hsq : 0 < l ^ 2 := pow_pos hl 2
  have hu := f.roundoff_pos
  have hsum := abs_sub_le_of_growth hsum hL0.le
  have hroot := abs_sub_sq_le hlow hup
  have hu1 : f.roundoff ≤ 1 / 10000 := f.roundoff_le.trans (by norm_num)
  have huq := mul_le_mul_of_nonneg_right hu1 hsq.le
  have huL := mul_le_mul_of_nonneg_right hu1 hL0.le
  have hLq : L ≤ 1001 / 1000 * l ^ 2 := by linarith [(abs_le.1 hroot).2]
  have hsmall : f.roundoff * L ≤ 1001 / 1000 * (f.roundoff * l ^ 2) := by
    have := mul_le_mul_of_nonneg_left hLq hu.le
    linarith
  have hshare : f.unit ≤ 1001 / 1000 * (f.unit / L * l ^ 2) :=
    calc f.unit = f.unit / L * L := (div_mul_cancel₀ _ hL0.ne').symm
      _ ≤ f.unit / L * (1001 / 1000 * l ^ 2) :=
        mul_le_mul_of_nonneg_left hLq (div_pos f.unit_pos hL0).le
      _ = 1001 / 1000 * (f.unit / L * l ^ 2) := by ring
  have hshare0 : 0 ≤ f.unit / L * l ^ 2 := mul_nonneg (div_pos f.unit_pos hL0).le hsq.le
  constructor
  · linarith [(abs_le.1 hsum).1]
  · have htriangle := abs_add_le (A - L) (L - l ^ 2)
    rw [sub_add_sub_cancel, abs_sub_comm A L] at htriangle
    rw [div_sub_one hsq.ne', abs_div, abs_of_pos hsq, div_le_iff₀ hsq]
    have huq0 := mul_nonneg hu.le hsq.le
    linarith

/-- A sum of squares of quotients whose exact sum is close to one. -/
theorem abs_sub_one_le (hκ : 0 ≤ κ) (hB : |B - 1| ≤ 503 / 100 * f.roundoff + 452 / 100 * κ)
    (hM : M ≤ B + 21 * f.leastFull) (hN : |N - B| ≤ f.growth 5 * (M + 3 * f.leastFull)) :
    |N - 1| ≤ 12 * f.roundoff + 5 * κ := by
  have hg := f.growth_le (k := 5) (by norm_num)
  have hg1 := f.growth_le_thousandth (k := 5) (by norm_num)
  have hg0 := f.growth_nonneg 5
  push_cast at hg
  have hleast := mul_le_mul_of_nonneg_left f.leastFull_le_roundoff hg0
  have hgM := mul_le_mul_of_nonneg_left hM hg0
  have hgB := mul_le_mul_of_nonneg_left ((le_abs_self _).trans hB) hg0
  have hgu := mul_le_mul_of_nonneg_right hg1 f.roundoff_pos.le
  have hgκ := mul_le_mul_of_nonneg_right hg1 hκ
  have htriangle := abs_add_le (N - B) (B - 1)
  rw [sub_add_sub_cancel] at htriangle
  linarith [f.roundoff_pos]

end Format

/-! ## Vectors of length one -/

namespace Vec3

variable {c : Vec3 (Binary f)} {i : Axis}

theorem magnitudes_dot_self (c : Vec3 (Binary f)) :
    c.magnitudes.dot c.magnitudes = c.values.normSq := by
  simp only [normSq, dot, magnitudes, map_x, map_y, map_z, abs_mul_abs_self]

theorem sq_coord_le_normSq (a : Vec3 ℚ) (i : Axis) : a.coord i ^ 2 ≤ a.normSq := by
  rw [normSq, dot_eq_next _ _ i]
  nlinarith [mul_self_nonneg (a.coord i.next), mul_self_nonneg (a.coord i.next.next)]

/-- A length that neither overflows nor is zero, and its exact square. -/
structure HasLength (c : Vec3 (Binary f)) : Prop where
  isFinite : c.All IsFinite
  normSq_isFinite : c.normSq.IsFinite
  norm_isFinite : c.norm.IsFinite
  pos : 0 < c.norm.value
  le_pow : c.norm.value ≤ 2 ^ (f.exponentBound / 2 + 1)
  unit_le : f.unit ≤ c.normSq.value
  leastFull_le : f.leastFull ≤ f.roundoff * c.norm.value
  normSq_le : c.values.normSq ≤ 6 * c.norm.value ^ 2
  normSq_near : |c.values.normSq / c.norm.value ^ 2 - 1| ≤
    503 / 100 * f.roundoff + 452 / 100 * (f.unit / c.normSq.value)

theorem hasLength (hfin : c.normSq.IsFinite) (hpos : 0 < c.norm) : HasLength c := by
  have hc := (isFinite_of_dot hfin).1
  have h0 : 0 ≤ c.normSq := normSq_nonneg hc.isNumber
  have hl := (pos_iff.1 hpos).2
  have hnorm : c.norm.IsFinite := (sqrt_spec hfin h0).1
  have hleast : f.leastFull ≤ f.roundoff * c.norm.value := leastFull_le_sqrt hfin h0 hpos
  have hfull : f.leastFull ≤ c.norm.value :=
    hleast.trans (mul_le_of_le_one_left hl.le (f.roundoff_le.trans (by norm_num)))
  have hunit : f.unit ≤ c.normSq.value := by
    have hL : 0 < c.normSq.value := by
      refine lt_of_le_of_ne (nonneg_iff.1 h0).2 fun hzero => hl.ne' ?_
      have e : c.norm = c.normSq := sqrt_of_value_eq_zero hfin.1 hzero.symm
      rw [e, ← hzero]
    have h := (isMultiple_value hfin.1).le_of_pos hL
    rwa [pow_zero, one_mul] at h
  have hsum := (approx_dot (approx_self hc) (approx_self hc) hfin).error
  rw [magnitudes_dot_self] at hsum
  have hroot : RoundsRoot c.normSq.value c.norm := roundsRoot_sqrt hfin h0
  obtain ⟨hlow, hup⟩ := hroot.sq_bounds hnorm hfull
  obtain ⟨hle, hnear⟩ := Format.sq_length_bounds hl hunit hsum hlow hup
  exact ⟨hc, hfin, hnorm, hl,
    hroot.value_le_pow hnorm hfull ((le_abs_self _).trans_lt hfin.abs_value_lt),
    hunit, hleast, hle, hnear⟩

/-- What the roundoff of the components of a quotient by the length is measured by. -/
def quotients (c : Vec3 (Binary f)) : Vec3 ℚ := c.magnitudes.map (· / c.norm.value + f.leastFull)

namespace HasLength

variable (h : HasLength c)

include h

theorem not_isZero : ¬ c.normSq.IsZero := fun hzero => by
  have hunit := h.unit_le
  rw [(isZero_iff.1 hzero).2] at hunit
  exact hunit.not_gt f.unit_pos

/-- No component is more than three times as long. -/
theorem abs_coord_le (i : Axis) : |(c.coord i).value| ≤ 3 * c.norm.value := by
  have hsq := (sq_coord_le_normSq c.values i).trans h.normSq_le
  rw [coord_values] at hsq
  have h0 := sq_nonneg c.norm.value
  exact abs_le_of_sq_le_sq (by linarith) (by linarith [h.pos])

/-- The components of the quotient by the length. -/
theorem coord_div (i : Axis) : Within 2 ((c / c.norm).coord i) ∧
    Approx 1 ((c.values / c.norm.value).coord i) (c.quotients.coord i) ((c / c.norm).coord i) := by
  have hci := all_iff_coord.1 h.isFinite i
  have hround := rounds_div hci h.norm_isFinite h.pos.ne'
  have hle : |(c.coord i).value / c.norm.value| ≤ 2 ^ 2 := by
    rw [abs_div, abs_of_pos h.pos, div_le_iff₀ h.pos]
    linarith [h.abs_coord_le i, h.pos]
  have hwithin : Within 2 (c.coord i / c.norm) :=
    .of_rounds hround hle (by cases f <;> decide)
  have happrox := Approx.quotient hci h.norm_isFinite h.pos.ne'
    (hwithin.isFinite (by cases f <;> decide))
  rw [abs_of_pos h.pos] at happrox
  cases i <;> exact ⟨hwithin, happrox⟩

theorem within_div : (c / c.norm).All (Within 2) := all_iff_coord.2 fun i => (h.coord_div i).1

/-- What may underflow in the quotients is hardly more of their squares. -/
theorem quotients_dot_self_le : c.quotients.dot c.quotients ≤
    c.values.normSq / c.norm.value ^ 2 + 21 * f.leastFull := by
  have hl0 := f.leastFull_pos.le
  have hl1 : f.leastFull ≤ 1 := f.leastFull_le_roundoff.trans (f.roundoff_le.trans (by norm_num))
  have hsq := mul_le_mul_of_nonneg_right hl1 hl0
  have hcoord : ∀ i, (|(c.coord i).value| / c.norm.value + f.leastFull) *
      (|(c.coord i).value| / c.norm.value + f.leastFull) ≤
        (c.coord i).value * (c.coord i).value / c.norm.value ^ 2 + 7 * f.leastFull := by
    intro i
    have h3 : |(c.coord i).value| / c.norm.value ≤ 3 := (div_le_iff₀ h.pos).2 (h.abs_coord_le i)
    have hcross := mul_le_mul_of_nonneg_right h3 hl0
    have hshare : |(c.coord i).value| * |(c.coord i).value| / c.norm.value ^ 2 =
      |(c.coord i).value| / c.norm.value * (|(c.coord i).value| / c.norm.value) := by ring
    rw [← abs_mul_abs_self (c.coord i).value, hshare]
    linarith
  have hx := hcoord .x
  have hy := hcoord .y
  have hz := hcoord .z
  simp only [coord] at hx hy hz
  simp only [quotients, normSq, dot, magnitudes, values, map_x, map_y, map_z, add_div]
  linarith

/-- The quotient by the length has length one. -/
theorem normSq_div : (c / c.norm).normSq.IsFinite ∧ |(c / c.norm).normSq.value - 1| ≤
    12 * f.roundoff + 5 * (f.unit / c.normSq.value) := by
  have hfin : (c / c.norm).normSq.IsFinite :=
    (within_dot h.within_div h.within_div (by cases f <;> decide)).isFinite
      (by cases f <;> decide)
  refine ⟨hfin, ?_⟩
  have herror := (approx_dot (fun i => (h.coord_div i).2) (fun i => (h.coord_div i).2) hfin).error
  have hexact : (c.values / c.norm.value).dot (c.values / c.norm.value) =
      c.values.normSq / c.norm.value ^ 2 := by
    simp only [normSq, dot, div_x, div_y, div_z]
    ring
  rw [hexact] at herror
  exact Format.abs_sub_one_le (div_nonneg f.unit_pos.le (f.unit_pos.le.trans h.unit_le))
    h.normSq_near h.quotients_dot_self_le herror

end HasLength

/-! ## Lengths that underflow or overflow -/

theorem All.isZero_normSq (hc : c.All IsZero) : c.normSq.IsZero :=
  ((hc.1.mul hc.1).add (hc.2.1.mul hc.2.1)).add (hc.2.2.mul hc.2.2)

/-- A length that underflows to zero is that of squares which do. -/
theorem isZero_normSq (hfin : c.normSq.IsFinite) (hpos : ¬ 0 < c.norm) : c.normSq.IsZero := by
  have hc := (isFinite_of_dot hfin).1
  have h0 : 0 ≤ c.normSq := normSq_nonneg hc.isNumber
  obtain ⟨hnorm, hclear⟩ := sqrt_spec hfin h0
  refine isZero_iff.2 ⟨hfin.1, by_contra fun hne => hclear hne ?_⟩
  have hvalue : c.norm.value ≤ 0 := not_lt.1 fun h => hpos (pos_iff.2 ⟨hnorm.1, h⟩)
  exact abs_le_minPositive_of_value_eq_zero hnorm.1
    (le_antisymm hvalue (nonneg_iff.1 (sqrt_nonneg h0)).2)

/-- What is divided by an infinite length is zero. -/
theorem isZero_div_norm (hc : c.All IsFinite) (hinf : ¬ c.normSq.IsFinite) :
    c.norm = infinity ∧ (c / c.norm).All IsZero := by
  have hnorm : c.norm = infinity := by
    have h0 : 0 ≤ c.normSq := normSq_nonneg hc.isNumber
    have e := (isFinite_or_infinite_of_nonneg h0).resolve_left hinf
    rw [norm, e]
    exact sqrt_signedInfinity
  rw [hnorm]
  exact ⟨rfl, hc.1.isZero_div_infinity, hc.2.1.isZero_div_infinity, hc.2.2.isZero_div_infinity⟩

end Vec3

end HitTest
