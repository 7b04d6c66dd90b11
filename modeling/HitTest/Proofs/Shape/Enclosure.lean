import HitTest.Proofs.Binary.Magnitude
import HitTest.Proofs.Binary.Roundoff
import HitTest.Proofs.Shape.Hull
import HitTest.Shape.Any

/-!
# The box around a sphere (`Sphere::bounds`)

A sphere takes in a point by comparing squares, and its box is made by adding the radius to the
center. Both are rounded, but not alike: the difference from the center is rounded before it is
squared, and the face of the box is rounded where the center was added. A point can be in the sphere
and beyond a face if its distance is rounded to the radius from above. What is never beyond a face is
what has a distance below a number, and every number above the radius is such a bound, for its
square is greater than that of the radius. This needs squares that do not underflow, and a square of
the radius that does not overflow, for otherwise the comparison takes in whatever comes.
-/

namespace HitTest

open Binary hiding min max

variable {f : Format}

namespace Binary

variable {x y c d p r z : Binary f} {b : ℚ}

/-- What is rounded to a difference below a number was below the sum with that number. -/
theorem Rounds.value_le_of_lt (hd : Rounds (p.value - b) d) (hz : Rounds (b + r.value) z)
    (hp : p.isNumber = true) (hr : r.isNumber = true) (h : d.value < r.value) :
    p.value ≤ z.value := by
  refine hz.le_value hp ?_
  by_contra hlt
  have hle := hd.le_value hr (by linarith)
  linarith

/-- A coordinate whose rounded difference from the center is below a number is between the faces
that this number reaches to. -/
theorem between_of_abs_sub_lt (hc : c.IsFinite) (hp : p.IsFinite) (hr : r.isNumber = true)
    (h : |(p - c).value| < r.value) : c - r ≤ p ∧ p ≤ c + r := by
  obtain ⟨hlow, hup⟩ := abs_lt.1 h
  have hd := rounds_sub hp hc
  by_cases hrf : r.IsFinite
  · have hfar := rounds_add hc hrf
    have hnear := rounds_sub hc hrf
    rw [le_iff_value hnear.isNumber hp.1, le_iff_value hp.1 hfar.isNumber]
    refine ⟨?_, hd.value_le_of_lt hfar hp.1 hr hup⟩
    -- the other face is the mirror image
    have hd' : Rounds ((-p).value - -c.value) (-(p - c)) := by
      rw [value_neg, sub_neg_eq_add, neg_add_eq_sub, ← neg_sub]
      exact hd.neg
    have hnear' : Rounds (-c.value + r.value) (-(c - r)) := by
      rw [neg_add_eq_sub, ← neg_sub]
      exact hnear.neg
    have hle := hd'.value_le_of_lt hnear' (by simpa using hp.1) hr (by rw [value_neg]; linarith)
    rwa [value_neg, value_neg, neg_le_neg_iff] at hle
  · obtain ⟨s, rfl⟩ := exists_eq_signedInfinity hr hrf
    cases s with
    | false =>
      rw [sub_signedInfinity (hc.isNumber_sub hr), Binary.add_comm,
        signedInfinity_add (Binary.add_comm c _ ▸ hc.isNumber_add hr)]
      exact ⟨signedInfinity_le hp.1, le_signedInfinity hp.1⟩
    | true =>
      rw [value_signedInfinity, signFactor_true] at h
      have htop := f.four_lt_valueAt_top
      have := (abs_nonneg (p - c).value).trans_lt h
      norm_num at this
      linarith

/-- A coordinate whose difference from the center is not rounded may also be on the face. -/
theorem between_of_abs_sub_le (hc : c.IsFinite) (hp : p.IsFinite) (hr : r.IsFinite)
    (hexact : (p - c).value = p.value - c.value) (h : |(p - c).value| ≤ r.value) :
    c - r ≤ p ∧ p ≤ c + r := by
  rw [hexact] at h
  obtain ⟨hlow, hup⟩ := abs_le.1 h
  have hfar := rounds_add hc hr
  have hnear := rounds_sub hc hr
  rw [le_iff_value hnear.isNumber hp.1, le_iff_value hp.1 hfar.isNumber]
  exact ⟨hnear.value_le hp.1 (by linarith), hfar.le_value hp.1 (by linarith)⟩

end Binary

namespace Vec3

variable {a : Vec3 (Binary f)}

/-- No component has a square above the squared length. -/
theorem mul_self_coord_le_normSq (ha : a.All (·.isNumber = true)) (i : Axis) :
    a.coord i * a.coord i ≤ a.normSq := by
  have hx := Binary.mul_self_nonneg ha.1
  have hy := Binary.mul_self_nonneg ha.2.1
  have hz := Binary.mul_self_nonneg ha.2.2
  have hxy := Binary.add_nonneg hx hy
  cases i with
  | x => exact Binary.le_trans (le_add_of_nonneg hx hy).1 (le_add_of_nonneg hxy hz).1
  | y => exact Binary.le_trans (le_add_of_nonneg hy hx).2 (le_add_of_nonneg hxy hz).1
  | z => exact (le_add_of_nonneg hz hxy).2

end Vec3

namespace Sphere

variable {s : Sphere (Binary f)} {p : Vec3 (Binary f)} {r : Binary f}

/-- A contained point has no difference from the center whose square is above that of the radius. -/
theorem mul_self_sub_le (h : s.contains p = true) (i : Axis) :
    (p.coord i - s.center.coord i) * (p.coord i - s.center.coord i) ≤ s.radiusSq := by
  have hle := (contains_iff.1 h).2
  have hcoord := Vec3.mul_self_coord_le_normSq (Vec3.isNumber_of_normSq (isNumber_left hle)) i
  rw [Vec3.coord_sub] at hcoord
  exact Binary.le_trans hcoord hle

theorem isFinite_of_contains (hfin : s.radiusSq.IsFinite) (h : s.contains p = true) (i : Axis) :
    (p.coord i).IsFinite := by
  have hle := mul_self_sub_le h i
  have hsq := Binary.mul_self_nonneg (isNumber_of_mul (isNumber_left hle)).1
  exact (isFinite_of_sub (isFinite_of_mul (hfin.of_nonneg_of_le hsq hle)).1).1

/-- Every number above the radius is above the differences of a contained point from the center. -/
theorem abs_sub_lt_of_contains (hr : 0 ≤ s.radius) (hfin : s.radiusSq.IsFinite)
    (h : s.contains p = true) (hlt : s.radius < r) (hmin : minPositive ≤ r * r) (i : Axis) :
    |(p.coord i - s.center.coord i).value| < r.value := by
  have hle := mul_self_sub_le h i
  have hrn := (isNumber_of_mul (isNumber_right hmin)).1
  have hr0 := (nonneg_iff.1 (Binary.le_trans hr (Binary.le_of_lt hlt))).2
  by_contra hge
  have hsq := Binary.mul_self_le_mul_self hrn (isNumber_of_mul (isNumber_left hle)).1
    (by rw [abs_of_nonneg hr0]; exact not_lt.1 hge)
  have hroot := mul_self_lt_mul_self hr hlt hfin hmin
  exact (Binary.not_lt hfin.1 (isNumber_left hsq)).2 (Binary.le_trans hsq hle) hroot

/-- If its square does not underflow, the radius itself is not below these differences. -/
theorem abs_sub_le_of_contains (hr : 0 ≤ s.radius) (hfin : s.radiusSq.IsFinite)
    (hmin : minPositive ≤ s.radiusSq) (h : s.contains p = true) (i : Axis) :
    |(p.coord i - s.center.coord i).value| ≤ s.radius.value := by
  have hle := mul_self_sub_le h i
  have hn := (isNumber_of_mul (isNumber_left hle)).1
  generalize p.coord i - s.center.coord i = d at *
  have hdn : d.abs.isNumber = true := (isNumber_abs d).trans hn
  rw [← value_abs, ← le_iff_value hdn (isNumber_right hr)]
  by_contra hgt
  rw [Binary.not_le hdn (isNumber_right hr)] at hgt
  have habs := Binary.mul_self_le_mul_self hdn hn (by rw [value_abs, abs_abs])
  have hgrow := Binary.mul_self_le_mul_self_of_nonneg hr (Binary.le_of_lt hgt)
  have hroot := mul_self_lt_mul_self hr hgt hfin (Binary.le_trans hmin hgrow)
  exact (Binary.not_lt hfin.1 (isNumber_left habs)).2 (Binary.le_trans habs hle) hroot

/-- What is inside the box around a sphere. -/
theorem contains_bounds_iff (hc : s.center.All IsFinite) (hr : 0 ≤ s.radius)
    (hp : ∀ i, (p.coord i).isNumber = true) :
    s.bounds.contains p = true ↔ ∀ i, s.center.coord i - s.radius ≤ p.coord i ∧
      p.coord i ≤ s.center.coord i + s.radius := by
  have hrn := isNumber_right hr
  have hb : s.bounds = ⟨s.center - .uniform s.radius, s.center + .uniform s.radius⟩ := by
    rw [bounds, isEmpty_eq_false hr, if_neg Bool.false_ne_true]
  have hnum : s.bounds.IsNumeric := by
    rw [hb]
    exact ⟨⟨hc.1.isNumber_sub hrn, hc.2.1.isNumber_sub hrn, hc.2.2.isNumber_sub hrn⟩,
      hc.1.isNumber_add hrn, hc.2.1.isNumber_add hrn, hc.2.2.isNumber_add hrn⟩
  rw [Box.contains_iff_le_coord hnum (Vec3.all_iff_coord.2 hp), hb]
  apply forall_congr'
  intro i
  cases i <;> rfl

/-- The boxes that contain a point of a sphere (`Spatial` for `Sphere`). That of any larger sphere
of the same center does, if the square of the larger radius does not underflow. If the square of the
radius does not either, the box of the sphere itself does, unless the point has a difference from
the center that was rounded, and rounded to just the radius. -/
theorem contains_bounds_of_contains (hc : s.center.All IsFinite) (hr : 0 ≤ s.radius)
    (hfin : s.radiusSq.IsFinite) (h : s.contains p = true) :
    (∀ r, s.radius < r → minPositive ≤ r * r →
      (Sphere.mk s.center r).bounds.contains p = true) ∧
    (minPositive ≤ s.radiusSq →
      (∀ i, |(p.coord i - s.center.coord i).value| ≤ s.radius.value) ∧
      ((∀ i, |(p.coord i - s.center.coord i).value| = s.radius.value →
        (p.coord i - s.center.coord i).value = (p.coord i).value - (s.center.coord i).value) →
          s.bounds.contains p = true)) := by
  have hcenter := Vec3.all_iff_coord.1 hc
  have hp := isFinite_of_contains hfin h
  refine ⟨fun r hlt hmin => ?_, fun hmin => ?_⟩
  · have hr' : 0 ≤ r := Binary.le_trans hr (Binary.le_of_lt hlt)
    rw [contains_bounds_iff (s := ⟨s.center, r⟩) hc hr' fun i => (hp i).1]
    exact fun i => between_of_abs_sub_lt (hcenter i) (hp i) (isNumber_right hr')
      (abs_sub_lt_of_contains hr hfin h hlt hmin i)
  · have hle := abs_sub_le_of_contains hr hfin hmin h
    refine ⟨hle, fun hexact => ?_⟩
    rw [contains_bounds_iff hc hr fun i => (hp i).1]
    intro i
    rcases (hle i).lt_or_eq with hlt | heq
    · exact between_of_abs_sub_lt (hcenter i) (hp i) (isNumber_right hr) hlt
    · exact between_of_abs_sub_le (hcenter i) (hp i) (isFinite_of_mul hfin).1 (hexact i heq)
        heq.le

/-- A point on a sphere, on the face of its box and inside that of a larger one. -/
theorem contains_bounds_of_contains_face :
    (⟨⟨1, 0, 0⟩, ofNat 3⟩ : Sphere Binary32).bounds.contains ⟨ofNat 3, 0, 0⟩ = true ∧
      (⟨⟨1, 0, 0⟩, ofNat 2⟩ : Sphere Binary32).bounds.contains ⟨ofNat 3, 0, 0⟩ = true := by
  obtain ⟨hlarger, hitself⟩ := contains_bounds_of_contains (s := ⟨⟨1, 0, 0⟩, ofNat 2⟩)
    (p := (⟨ofNat 3, 0, 0⟩ : Vec3 Binary32)) (by decide) (by decide) (by decide) (by decide)
  refine ⟨hlarger (ofNat 3) (by decide) (by decide), (hitself (by decide)).2 ?_⟩
  rw [Axis.forall_iff]
  decide +kernel

/-- A sphere of finite center and radius contains a finite point, and its box does not. -/
def LeavesOut (s : Sphere (Binary f)) (p : Vec3 (Binary f)) : Prop :=
  (s.center.All IsFinite ∧ s.radius.IsFinite ∧ 0 ≤ s.radius) ∧ p.All IsFinite ∧
    s.contains p = true ∧ s.bounds.contains p = false

instance (s : Sphere (Binary f)) (p : Vec3 (Binary f)) : Decidable (s.LeavesOut p) :=
  inferInstanceAs (Decidable ((_ ∧ _ ∧ _) ∧ _ ∧ _ ∧ _))

/-- It is so where the difference from the center is rounded, where the squares underflow, and where
that of the radius overflows. -/
theorem not_contains_bounds_of_contains :
    (⟨⟨-1, 0, 0⟩, 1⟩ : Sphere Binary32).LeavesOut ⟨minPositive, 0, 0⟩ ∧
      (⟨0, 0⟩ : Sphere Binary32).LeavesOut ⟨minPositive, 0, 0⟩ ∧
      (⟨0, ofNat (2 ^ 64)⟩ : Sphere Binary32).LeavesOut ⟨ofNat (2 ^ 65), 0, 0⟩ := by
  decide +kernel

end Sphere

end HitTest
