import HitTest.Proofs.Query.Inside
import HitTest.Query.Any

/-!
# The point of a box nearest to a center (`Intersects<Aabb>` for `Sphere`)

On every axis a coordinate is brought between two faces, and the result is between the coordinate
and everything else that is between the faces. So it has the least difference, and because rounding
keeps the order it also has the least rounded difference, the least rounded square and the least
rounded distance. A sphere that shares any point with a box shares this one.
-/

namespace HitTest

open Binary hiding min max

variable {f : Format}

/-! ## One axis -/

namespace Binary

variable {x y c p q lower upper : Binary f}

/-- A number on the way from one number to another, in one direction or the other. -/
def OnTheWay (c q p : Binary f) : Prop := c ≤ q ∧ q ≤ p ∨ p ≤ q ∧ q ≤ c

/-- A coordinate is moved between two faces no farther than to whatever is there. -/
theorem onTheWay_clamp (hc : c.isNumber = true) (hl : lower ≤ p) (hu : p ≤ upper) :
    OnTheWay c (Min.min (Max.max c lower) upper) p := by
  have hln := isNumber_left hl
  have hun := isNumber_right hu
  have hmax := isNumber_max hc hln
  obtain ⟨hcmax, -⟩ := Binary.le_max hc hln
  obtain ⟨hmin, -⟩ := Binary.min_le hmax hun
  unfold OnTheWay
  rw [Binary.le_min_iff hmax hun, Binary.le_min_iff hmax hun]
  rcases Binary.le_total hc (isNumber_right hl) with h | h
  · left
    have hmaxp := (Binary.max_le_iff hc hln).2 ⟨h, hl⟩
    exact ⟨⟨hcmax, Binary.le_trans h hu⟩, Binary.le_trans hmin hmaxp⟩
  · right
    have hmaxc := (Binary.max_le_iff hc hln).2 ⟨Binary.le_refl hc, Binary.le_trans hl h⟩
    exact ⟨⟨Binary.le_trans h hcmax, hu⟩, Binary.le_trans hmin hmaxc⟩

/-- Between two faces that are in order it is moved to. -/
theorem clamp_between (hc : c.isNumber = true) (h : lower ≤ upper) :
    lower ≤ Min.min (Max.max c lower) upper ∧ Min.min (Max.max c lower) upper ≤ upper := by
  have hmax := isNumber_max hc (isNumber_left h)
  have hun := isNumber_right h
  rw [Binary.le_min_iff hmax hun]
  exact ⟨⟨(Binary.le_max hc (isNumber_left h)).2, h⟩, (Binary.min_le hmax hun).2⟩

/-- The rounded difference of what is on the way is the lesser one, and so is its square. -/
theorem OnTheWay.sq_sub_le (hc : c.IsFinite) (h : OnTheWay c q p) :
    0 ≤ (q - c) * (q - c) ∧ (q - c) * (q - c) ≤ (p - c) * (p - c) := by
  rcases h with ⟨hcq, hqp⟩ | ⟨hpq, hqc⟩
  · obtain ⟨hq, -, hpos⟩ := sub_signs (isNumber_left hqp) hc
    obtain ⟨hp, -, -⟩ := sub_signs (isNumber_right hqp) hc
    have hle := value_le_value (Binary.sub_le_sub hqp (Binary.le_refl hc.1) hq hp)
    have h0 := hpos (value_le_value hcq)
    refine ⟨Binary.mul_self_nonneg hq, Binary.mul_self_le_mul_self hq hp ?_⟩
    rwa [abs_of_nonneg h0, abs_of_nonneg (h0.trans hle)]
  · obtain ⟨hq, hneg, -⟩ := sub_signs (isNumber_right hpq) hc
    obtain ⟨hp, -, -⟩ := sub_signs (isNumber_left hpq) hc
    have hle := value_le_value (Binary.sub_le_sub hpq (Binary.le_refl hc.1) hp hq)
    have h0 := hneg (value_le_value hqc)
    refine ⟨Binary.mul_self_nonneg hq, Binary.mul_self_le_mul_self hq hp ?_⟩
    rwa [abs_of_nonpos h0, abs_of_nonpos (hle.trans h0), neg_le_neg_iff]

end Binary

/-! ## Distances -/

namespace Vec3

variable {c p q : Vec3 (Binary f)}

/-- A point with a distance has coordinates. -/
theorem isNumber_of_distSq (h : (c.distSq p).isNumber = true) : p.All (·.isNumber = true) := by
  obtain ⟨hx, hy, hz⟩ := isNumber_of_normSq h
  exact ⟨(isNumber_of_sub hx).1, (isNumber_of_sub hy).1, (isNumber_of_sub hz).1⟩

/-- A point that is on the way on every axis is not farther, also after rounding. -/
theorem distSq_le_distSq (hc : c.All IsFinite) (hx : OnTheWay c.x q.x p.x)
    (hy : OnTheWay c.y q.y p.y) (hz : OnTheWay c.z q.z p.z) : c.distSq q ≤ c.distSq p := by
  obtain ⟨hx0, hxle⟩ := hx.sq_sub_le hc.1
  obtain ⟨hy0, hyle⟩ := hy.sq_sub_le hc.2.1
  obtain ⟨hz0, hzle⟩ := hz.sq_sub_le hc.2.2
  obtain ⟨hxy0, hxyle⟩ := Binary.add_le_add_of_nonneg hx0 hxle hy0 hyle
  exact (Binary.add_le_add_of_nonneg hxy0 hxyle hz0 hzle).2

end Vec3

/-! ## The nearest point of a box -/

namespace Box

variable {b : Box (Binary f)} {c p : Vec3 (Binary f)}

theorem distSq_nearestTo_le (hb : b.IsNumeric) (hc : c.All IsFinite)
    (hp : p.All (·.isNumber = true)) (h : b.contains p = true) :
    c.distSq (b.nearestTo c) ≤ c.distSq p := by
  obtain ⟨⟨hx1, hx2⟩, ⟨hy1, hy2⟩, hz1, hz2⟩ := (contains_iff hb hp).1 h
  exact Vec3.distSq_le_distSq hc (onTheWay_clamp hc.1.1 hx1 hx2) (onTheWay_clamp hc.2.1.1 hy1 hy2)
    (onTheWay_clamp hc.2.2.1 hz1 hz2)

/-- The nearest point of a box that is not empty is in the box. -/
theorem contains_nearestTo (hb : b.IsNumeric) (hc : c.All (·.isNumber = true))
    (hne : b.isEmpty = false) : b.contains (b.nearestTo c) = true := by
  obtain ⟨hx, hy, hz⟩ := (isEmpty_eq_false_iff_le hb).1 hne
  have hinx := clamp_between hc.1 hx
  have hiny := clamp_between hc.2.1 hy
  have hinz := clamp_between hc.2.2 hz
  rw [contains_iff hb ⟨isNumber_right hinx.1, isNumber_right hiny.1, isNumber_right hinz.1⟩]
  exact ⟨hinx, hiny, hinz⟩

end Box

namespace Sphere

variable {s : Sphere (Binary f)} {b : Box (Binary f)} {p : Vec3 (Binary f)}

/-- A point in both is as good as the nearest one. -/
theorem meetsBox_of_contains (hs : s.center.All IsFinite) (hb : b.IsNumeric)
    (hbp : b.contains p = true) (hsp : s.contains p = true) : s.meetsBox b = true := by
  obtain ⟨hne, hle⟩ := contains_iff.1 hsp
  have hp := Vec3.isNumber_of_distSq (isNumber_left hle)
  have hnear := Box.distSq_nearestTo_le hb hs hp hbp
  simp [meetsBox, hne, Box.isEmpty_eq_false_of_contains hb hp hbp, Binary.le_trans hnear hle]

/-- The nearest point is in both if the query says that they meet. -/
theorem contains_nearestTo_of_meetsBox (hs : s.center.All IsFinite) (hb : b.IsNumeric)
    (h : s.meetsBox b = true) :
    b.contains (b.nearestTo s.center) = true ∧ s.contains (b.nearestTo s.center) = true := by
  simp only [meetsBox, Bool.and_eq_true, Bool.not_eq_true', decide_eq_true_eq] at h
  obtain ⟨⟨hse, hbe⟩, hle⟩ := h
  exact ⟨Box.contains_nearestTo hb (hs.mono fun _ h => h.1) hbe, contains_iff.2 ⟨hse, hle⟩⟩

/-- A sphere with a finite center and a box whose corners are numbers meet if and only if some
vector is in both, whatever the radius is, and also if the corners are the wrong way round or
infinite (`Intersects<Aabb>` for `Sphere`). It makes no difference which of the two is asked. -/
theorem meetsBox_iff_exists (hs : s.center.All IsFinite) (hb : b.IsNumeric) :
    ((Shape.sphere s).meets? (.box b) = some true ↔
      ∃ p, b.contains p = true ∧ s.contains p = true) ∧
    ((Shape.box b).meets? (.sphere s) = some true ↔
      ∃ p, b.contains p = true ∧ s.contains p = true) := by
  have h : s.meetsBox b = true ↔ ∃ p, b.contains p = true ∧ s.contains p = true := by
    constructor
    · intro hmeets
      exact ⟨_, contains_nearestTo_of_meetsBox hs hb hmeets⟩
    · rintro ⟨p, hbp, hsp⟩
      exact meetsBox_of_contains hs hb hbp hsp
  exact ⟨Option.some_inj.trans h, Option.some_inj.trans h⟩

/-- A sphere touches a face of an unbounded box in one point. -/
theorem meetsBox_iff_exists_face :
    (Shape.sphere ⟨0, 1⟩ : Shape Binary32).meets?
        (.box ⟨⟨1, -infinity, 0⟩, ⟨infinity, infinity, 0⟩⟩) = some true ∧
      (Shape.box ⟨⟨1, -infinity, 0⟩, ⟨infinity, infinity, 0⟩⟩ : Shape Binary32).meets?
        (.sphere ⟨0, 1⟩) = some true := by
  have hzero : (0 : Binary32).IsFinite := ⟨rfl, by decide⟩
  have h := meetsBox_iff_exists (s := ⟨0, 1⟩) (b := ⟨⟨1, -infinity, 0⟩, ⟨infinity, infinity, 0⟩⟩)
    ⟨hzero, hzero, hzero⟩ ⟨⟨rfl, rfl, rfl⟩, rfl, rfl, rfl⟩
  rw [h.1, h.2]
  exact ⟨⟨⟨1, 0, 0⟩, by decide, by decide⟩, ⟨1, 0, 0⟩, by decide, by decide⟩

end Sphere

end HitTest
