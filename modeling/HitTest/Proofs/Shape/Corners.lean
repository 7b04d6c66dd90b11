import HitTest.Proofs.Shape.Hull

/-!
# The first and the last corner in a direction (`nearest_corner`, `farthest_corner`)

Along every axis the direction says which of two coordinates comes first. The nearest corner takes
the coordinate that comes first on all axes, the farthest corner the one that comes last, so every
point of the box is between them on each axis. Products and sums are rounded monotonically. Hence
the computed inner products with the direction are in the same order, also when some of them are
infinite.
-/

namespace HitTest

open Binary hiding min max

variable {f : Format}

namespace Vec3

variable {d a b : Vec3 (Binary f)}

/-- On every axis, one point is not after another one in a direction. A direction without a
component along an axis takes the lesser coordinate first, whatever the sign of the zero. -/
def Precedes (d a b : Vec3 (Binary f)) : Prop :=
  ∀ i, (d.coord i < 0 → b.coord i ≤ a.coord i) ∧ (¬ d.coord i < 0 → a.coord i ≤ b.coord i)

/-- An inner product is as monotone as its terms. -/
theorem dot_le_dot (h : ∀ i, d.coord i * a.coord i ≤ d.coord i * b.coord i)
    (ha : (d.dot a).isNumber = true) (hb : (d.dot b).isNumber = true) : d.dot a ≤ d.dot b := by
  obtain ⟨hx, hy, hz⟩ := Axis.forall_iff.1 h
  have hxy := Binary.add_le_add hx hy (isNumber_of_add ha).1 (isNumber_of_add hb).1
  exact Binary.add_le_add hxy hz ha hb

theorem Precedes.dot_le_dot (h : Precedes d a b) (hd : d.All IsFinite) (ha : a.All IsFinite)
    (hb : b.All IsFinite) (hda : (d.dot a).isNumber = true) (hdb : (d.dot b).isNumber = true) :
    d.dot a ≤ d.dot b := by
  refine Vec3.dot_le_dot (fun i => ?_) hda hdb
  exact mul_le_mul_of_sign (all_iff_coord.1 hd i) (all_iff_coord.1 ha i) (all_iff_coord.1 hb i)
    (h i).1 (h i).2

end Vec3

namespace Box

section Axes

variable {S : Type} {b : Box S} {p : Vec3 S}

/-- On every axis a corner has the coordinate of one of the two faces. -/
def IsCorner (b : Box S) (p : Vec3 S) : Prop :=
  ∀ i, p.coord i = b.least.coord i ∨ p.coord i = b.greatest.coord i

theorem IsCorner.all {P : S → Prop} (h : b.IsCorner p) (hleast : b.least.All P)
    (hgreatest : b.greatest.All P) : p.All P := by
  rw [Vec3.all_iff_coord] at *
  intro i
  rcases h i with e | e
  · exact e ▸ hleast i
  · exact e ▸ hgreatest i

variable [Scalar S]

theorem coord_nearestCorner (b : Box S) (d : Vec3 S) (i : Axis) :
    (b.nearestCorner d).coord i =
      if d.coord i < 0 then b.greatest.coord i else b.least.coord i := by
  cases i <;> rfl

/-- The farthest corner is the nearest one of the box with its corners exchanged. -/
theorem coord_farthestCorner (b : Box S) (d : Vec3 S) (i : Axis) :
    (b.farthestCorner d).coord i =
      if d.coord i < 0 then b.least.coord i else b.greatest.coord i :=
  coord_nearestCorner ⟨b.greatest, b.least⟩ d i

theorem isCorner_nearestCorner (b : Box S) (d : Vec3 S) : b.IsCorner (b.nearestCorner d) := by
  intro i
  rw [coord_nearestCorner]
  split
  · exact .inr rfl
  · exact .inl rfl

theorem isCorner_farthestCorner (b : Box S) (d : Vec3 S) : b.IsCorner (b.farthestCorner d) := by
  intro i
  rw [coord_farthestCorner]
  split
  · exact .inl rfl
  · exact .inr rfl

end Axes

variable {b : Box (Binary f)} {d p : Vec3 (Binary f)}

/-! ## Where the corners are -/

theorem IsCorner.contains (h : b.IsCorner p) (hb : b.IsNumeric) (hne : b.isEmpty = false) :
    b.contains p = true := by
  have hle := (isEmpty_eq_false_iff_le_coord hb).1 hne
  rw [contains_iff_le_coord hb (h.all hb.1 hb.2)]
  intro i
  rcases h i with e | e <;> rw [e]
  · exact ⟨Binary.le_refl (isNumber_left (hle i)), hle i⟩
  · exact ⟨hle i, Binary.le_refl (isNumber_right (hle i))⟩

/-- Every point of a box is between the two corners. -/
theorem precedes_corners (hb : b.IsNumeric) (hp : p.All (·.isNumber = true))
    (h : b.contains p = true) (d : Vec3 (Binary f)) :
    d.Precedes (b.nearestCorner d) p ∧ d.Precedes p (b.farthestCorner d) := by
  have hbetween := (contains_iff_le_coord hb hp).1 h
  refine ⟨fun i => ?_, fun i => ?_⟩
  · rw [coord_nearestCorner]
    refine ⟨fun hneg => ?_, fun hpos => ?_⟩
    · rw [if_pos hneg]
      exact (hbetween i).2
    · rw [if_neg hpos]
      exact (hbetween i).1
  · rw [coord_farthestCorner]
    refine ⟨fun hneg => ?_, fun hpos => ?_⟩
    · rw [if_pos hneg]
      exact (hbetween i).1
    · rw [if_neg hpos]
      exact (hbetween i).2

/-! ## Computed inner products -/

/-- The corners of a box that come first and last in a direction are points of the box, and the
inner product with the direction, as it is computed, is least at the one and greatest at the other
among all points of the box, whatever is rounded or infinite, unless one of the inner products is
not a number (`Aabb::nearest_corner`, `Aabb::farthest_corner`). -/
theorem dot_between_corners (hleast : b.least.All IsFinite) (hgreatest : b.greatest.All IsFinite)
    (hne : b.isEmpty = false) (hd : d.All IsFinite) :
    b.contains (b.nearestCorner d) = true ∧ b.contains (b.farthestCorner d) = true ∧
      ∀ p : Vec3 (Binary f), p.All IsFinite → b.contains p = true →
        (d.dot (b.nearestCorner d)).isNumber = true → (d.dot p).isNumber = true →
        (d.dot (b.farthestCorner d)).isNumber = true →
          d.dot (b.nearestCorner d) ≤ d.dot p ∧ d.dot p ≤ d.dot (b.farthestCorner d) := by
  have hb : b.IsNumeric := ⟨hleast.isNumber, hgreatest.isNumber⟩
  have hnearest := b.isCorner_nearestCorner d
  have hfarthest := b.isCorner_farthestCorner d
  refine ⟨hnearest.contains hb hne, hfarthest.contains hb hne, ?_⟩
  intro p hp hin hnear hmiddle hfar
  obtain ⟨hfirst, hlast⟩ := precedes_corners hb hp.isNumber hin d
  exact ⟨hfirst.dot_le_dot hd (hnearest.all hleast hgreatest) hp hnear hmiddle,
    hlast.dot_le_dot hd hp (hfarthest.all hleast hgreatest) hmiddle hfar⟩

/-- In a direction with a component of `2 ^ 127`, one below zero and a negative zero, the inner
products at the two corners of a flat box are infinite. -/
theorem dot_between_corners_infinite :
    let b : Box Binary32 := ⟨⟨-Scalar.two, 0, 1⟩, ⟨Scalar.two, 1, 1⟩⟩
    let d : Vec3 Binary32 := ⟨.number false 0x7f000000 (by decide), -1, signedZero true⟩
    d.dot (b.nearestCorner d) = -infinity ∧ d.dot (b.farthestCorner d) = infinity ∧
      d.dot (b.nearestCorner d) ≤ d.dot ⟨0, 1, 1⟩ ∧
      d.dot ⟨0, 1, 1⟩ ≤ d.dot (b.farthestCorner d) := by
  intro b d
  have hleast : b.least.All IsFinite := ⟨isFinite_two.neg, isFinite_zero, isFinite_one⟩
  have hgreatest : b.greatest.All IsFinite := ⟨isFinite_two, isFinite_one, isFinite_one⟩
  have hd : d.All IsFinite :=
    ⟨isFinite_number.2 (by decide), isFinite_one.neg, isFinite_number.2 (by decide)⟩
  obtain ⟨-, -, hall⟩ := dot_between_corners hleast hgreatest (by decide) hd
  refine ⟨by decide +kernel, by decide +kernel, ?_⟩
  exact hall ⟨0, 1, 1⟩ ⟨isFinite_zero, isFinite_one, isFinite_one⟩ (by decide) (by decide +kernel)
    (by decide +kernel) (by decide +kernel)

end Box

end HitTest
