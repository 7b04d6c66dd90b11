import HitTest.Binary.Arithmetic
import HitTest.Proofs.Binary.Nearest
import Mathlib.Order.Interval.Set.UnorderedInterval

/-!
# Values of binary numbers

A number stands for the rational number at its place, and is compared as that is. `Rounds x z` says
that `z` is a number nearest to `x`; which of the two zeros it is, is left open, for no comparison
depends on it.
-/

namespace HitTest

/-- The factor of a sign. -/
def signFactor (negative : Bool) : Int := if negative then -1 else 1

@[simp] theorem signFactor_true : signFactor true = -1 := rfl

@[simp] theorem signFactor_false : signFactor false = 1 := rfl

theorem signFactor_not (s : Bool) : signFactor (!s) = -signFactor s := by cases s <;> rfl

theorem signFactor_bne (s t : Bool) : signFactor (s != t) = signFactor s * signFactor t := by
  cases s <;> cases t <;> rfl

namespace Binary

variable {f : Format} {x y z : Binary f} {a b c : ℚ}

/-- The rational number that a number stands for; infinity stands for the magnitude that would be
next on the grid. -/
def value (x : Binary f) : ℚ := f.valueAt x.place

/-- Whether a value is a number and not infinite. -/
def IsFinite (x : Binary f) : Prop := x.isNumber = true ∧ |x.place| < f.top

theorem place_number (s : Bool) (r : Nat) (h : r ≤ f.top) :
    (number s r h).place = signFactor s * r := by
  cases s <;> simp [place]

theorem value_number (s : Bool) (r : Nat) (h : r ≤ f.top) :
    (number s r h).value = signFactor s * (f.units r * f.unit) := by
  cases s <;> simp [value, place, Format.valueAt_natCast]

theorem abs_place_le (x : Binary f) : |x.place| ≤ f.top := by
  cases x with
  | nan => simp [place]
  | number s r h => cases s <;> simpa [place] using h

theorem isFinite_number {s : Bool} {r : Nat} {h : r ≤ f.top} :
    (number s r h).IsFinite ↔ r ≠ f.top := by
  have : |(number s r h).place| = r := by cases s <;> simp [place]
  rw [IsFinite, this]
  simp only [isNumber, true_and, Int.ofNat_lt]
  omega

theorem eq_nan (h : x.isNumber = false) : x = nan := by
  cases x with
  | nan => rfl
  | number => cases h

/-- A number that is not finite is one of the infinities. -/
theorem exists_eq_signedInfinity (hx : x.isNumber = true) (h : ¬ x.IsFinite) :
    ∃ s, x = signedInfinity s := by
  cases x with
  | nan => cases hx
  | number s r hr =>
    rw [isFinite_number, not_not] at h
    subst h
    exact ⟨s, rfl⟩

theorem value_signedInfinity (s : Bool) :
    (signedInfinity s : Binary f).value = signFactor s * f.valueAt f.top := by
  rw [signedInfinity, value_number, Format.valueAt_natCast]

theorem value_signedInfinity_false : (signedInfinity false : Binary f).value = f.valueAt f.top := by
  rw [value_signedInfinity, signFactor_false, Int.cast_one, one_mul]

/-! ## Order -/

theorem lt_iff_value (hx : x.isNumber = true) (hy : y.isNumber = true) :
    x < y ↔ x.value < y.value := by
  rw [lt_iff, value, value, f.valueAt_strictMono.lt_iff_lt]
  simp [hx, hy]

theorem le_iff_value (hx : x.isNumber = true) (hy : y.isNumber = true) :
    x ≤ y ↔ x.value ≤ y.value := by
  rw [le_iff, value, value, f.valueAt_strictMono.le_iff_le]
  simp [hx, hy]

theorem not_lt_iff_value (hx : x.isNumber = true) (hy : y.isNumber = true) :
    ¬ x < y ↔ y.value ≤ x.value := by
  rw [lt_iff_value hx hy, not_lt]

@[simp] theorem place_zero : (0 : Binary f).place = 0 := rfl

@[simp] theorem value_zero : (0 : Binary f).value = 0 := by simp [value]

@[simp] theorem isNumber_zero : (0 : Binary f).isNumber = true := rfl

/-- Only the two zeros are different numbers of the same value. -/
theorem eq_of_value_eq (hx : x.isNumber = true) (hy : y.isNumber = true) (h : x.value = y.value)
    (h0 : x.value ≠ 0) : x = y := by
  have hplace : x.place = y.place := f.valueAt_strictMono.injective h
  have hne : x.place ≠ 0 := fun h => h0 (by rw [value, h, Format.valueAt_zero])
  rcases x with _ | ⟨_ | _, a, ha⟩ <;> rcases y with _ | ⟨_ | _, b, hb⟩ <;>
    simp_all [place, isNumber]

/-! ## Opposite and magnitude -/

@[simp] theorem isNumber_neg (x : Binary f) : (-x).isNumber = x.isNumber := by cases x <;> rfl

@[simp] theorem place_neg (x : Binary f) : (-x).place = -x.place := by
  change x.neg.place = _
  cases x with
  | nan => rfl
  | number s r h => cases s <;> simp [neg, place]

@[simp] theorem value_neg (x : Binary f) : (-x).value = -x.value := by simp [value]

theorem IsFinite.neg (h : x.IsFinite) : (-x).IsFinite := by simpa [IsFinite] using h

@[simp] theorem isNumber_abs (x : Binary f) : x.abs.isNumber = x.isNumber := by cases x <;> rfl

@[simp] theorem place_abs (x : Binary f) : x.abs.place = |x.place| := by
  cases x with
  | nan => rfl
  | number s r h => cases s <;> simp [abs, place]

theorem value_abs (x : Binary f) : x.abs.value = |x.value| := by
  rw [value, place_abs, Format.valueAt_abs, value]

/-! ## Lesser and greater number -/

theorem min_eq (hx : x.isNumber = true) (hy : y.isNumber = true) :
    Min.min x y = if y < x then y else x := by
  cases x with
  | nan => cases hx
  | number s a ha =>
    cases y with
    | nan => cases hy
    | number t b hb => rfl

theorem max_eq (hx : x.isNumber = true) (hy : y.isNumber = true) :
    Max.max x y = if x < y then y else x := by
  cases x with
  | nan => cases hx
  | number s a ha =>
    cases y with
    | nan => cases hy
    | number t b hb => rfl

theorem isNumber_min (hx : x.isNumber = true) (hy : y.isNumber = true) :
    (Min.min x y).isNumber = true := by
  rw [min_eq hx hy]; split <;> assumption

theorem isNumber_max (hx : x.isNumber = true) (hy : y.isNumber = true) :
    (Max.max x y).isNumber = true := by
  rw [max_eq hx hy]; split <;> assumption

theorem value_min (hx : x.isNumber = true) (hy : y.isNumber = true) :
    (Min.min x y).value = Min.min x.value y.value := by
  rw [min_eq hx hy]
  split
  · rename_i h; rw [min_eq_right ((lt_iff_value hy hx).1 h).le]
  · rename_i h; rw [min_eq_left ((not_lt_iff_value hy hx).1 h)]

theorem value_max (hx : x.isNumber = true) (hy : y.isNumber = true) :
    (Max.max x y).value = Max.max x.value y.value := by
  rw [max_eq hx hy]
  split
  · rename_i h; rw [max_eq_right ((lt_iff_value hx hy).1 h).le]
  · rename_i h; rw [max_eq_left ((not_lt_iff_value hx hy).1 h)]

@[simp] theorem place_infinity : (infinity : Binary f).place = f.top := rfl

/-- Every number takes the place of infinity as the least so far. -/
theorem min_infinity (h : x.IsFinite) : Min.min infinity x = x := by
  rw [min_eq rfl h.1, if_pos]
  rw [lt_iff, place_infinity]
  exact ⟨h.1, rfl, (abs_lt.1 h.2).2⟩

theorem max_neg_infinity (h : x.IsFinite) : Max.max (-infinity) x = x := by
  rw [max_eq rfl h.1, if_pos]
  rw [lt_iff, place_neg, place_infinity]
  exact ⟨rfl, h.1, (abs_lt.1 h.2).1⟩

/-! ## Rounding -/

/-- A number is nearest to a rational number, and of even rank if there are two. -/
structure Rounds (a : ℚ) (z : Binary f) : Prop where
  isNumber : z.isNumber = true
  nearest : f.Nearest a z.place

namespace Rounds

/-- Every number is nearest to what it stands for. -/
theorem self (h : x.isNumber = true) : Rounds x.value x := ⟨h, .of_valueAt x.abs_place_le⟩

theorem neg (h : Rounds a x) : Rounds (-a) (-x) :=
  ⟨by simpa using h.isNumber, by simpa using h.nearest.neg⟩

/-- Rounding keeps the order. -/
theorem value_le_value (hx : Rounds a x) (hy : Rounds b y) (h : a ≤ b) : x.value ≤ y.value :=
  f.valueAt_strictMono.monotone (hx.nearest.mono hy.nearest h)

/-- What is not above a number is not rounded above it. -/
theorem value_le (hx : Rounds a x) (hy : y.isNumber = true) (h : a ≤ y.value) :
    x.value ≤ y.value := hx.value_le_value (self hy) h

theorem le_value (hx : Rounds a x) (hy : y.isNumber = true) (h : y.value ≤ a) :
    y.value ≤ x.value := (self hy).value_le_value hx h

/-- What is between two numbers is not rounded out of it. -/
theorem mem_uIcc (hx : Rounds a x) (hy : Rounds b y) (hz : Rounds c z) (h : c ∈ Set.uIcc a b) :
    z.value ∈ Set.uIcc x.value y.value := by
  rw [Set.mem_uIcc] at h ⊢
  rcases h with ⟨hlow, hup⟩ | ⟨hlow, hup⟩
  · exact .inl ⟨hx.value_le_value hz hlow, hz.value_le_value hy hup⟩
  · exact .inr ⟨hy.value_le_value hz hlow, hz.value_le_value hx hup⟩

/-- No number is closer. -/
theorem abs_sub_le (hx : Rounds a x) (y : Binary f) : |x.value - a| ≤ |y.value - a| :=
  hx.nearest.abs_sub_le y.abs_place_le

/-- What is rounded from one rational number has one value. -/
theorem value_unique (hx : Rounds a x) (hy : Rounds a y) : x.value = y.value :=
  le_antisymm (hx.value_le_value hy le_rfl) (hy.value_le_value hx le_rfl)

/-- Rounding does not change the sign. -/
theorem value_nonneg (h : Rounds a x) (ha : 0 ≤ a) : 0 ≤ x.value := by
  simpa using h.le_value (y := 0) rfl (by simpa using ha)

theorem value_nonpos (h : Rounds a x) (ha : a ≤ 0) : x.value ≤ 0 := by
  simpa using h.value_le (y := 0) rfl (by simpa using ha)

theorem value_eq_zero (h : Rounds 0 x) : x.value = 0 :=
  le_antisymm (h.value_nonpos le_rfl) (h.value_nonneg le_rfl)

end Rounds

theorem rounds_nearest (s : Bool) (n : Nat) (e : Int) :
    Rounds (signFactor s * (n * 2 ^ e * f.unit)) (nearest s n e : Binary f) := by
  have h := f.nearest_rankNearest n e
  refine ⟨rfl, ?_⟩
  rw [nearest, place_number]
  cases s with
  | false => simpa using h
  | true => simpa using h.neg

end Binary

end HitTest
