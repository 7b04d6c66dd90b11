import HitTest.Proofs.Shape.Hull
import HitTest.Query.Any

/-!
# Empty solids

A solid that is empty shares a point with nothing: every query between a solid and a line or another
solid looks for that first, whatever else it is asked for. A sphere looks for it also when it is
asked for a point. A box does not, and rejects a point by the comparison with a face that the point
is beyond. A number is always beyond one of two faces that are the wrong way round. What is not a
number is beyond none, so an empty box is said to contain a point that is a number on no axis with
such faces and not outside on the other ones.
-/

namespace HitTest

open Binary hiding min max

section Guards

variable {S : Type} [Scalar S]

namespace Box

variable {a b : Box S}

theorem meetsLine_eq_false (h : b.isEmpty = true) (l : Line S) : b.meetsLine l = false := by
  simp [meetsLine, h]

theorem meetsBox_eq_false (h : a.isEmpty = true ∨ b.isEmpty = true) : a.meetsBox b = false := by
  rcases h with h | h <;> simp [meetsBox, h]

end Box

namespace Sphere

variable {s t : Sphere S} {b : Box S}

theorem contains_eq_false (h : s.isEmpty = true) (p : Vec3 S) : s.contains p = false := by
  simp [contains, h]

theorem meetsLine_eq_false (h : s.isEmpty = true) (l : Line S) : s.meetsLine l = false := by
  simp [meetsLine, contact, h, Contact.isHit]

theorem meetsSphere_eq_false (h : s.isEmpty = true ∨ t.isEmpty = true) :
    s.meetsSphere t = false := by
  rcases h with h | h <;> simp [meetsSphere, h]

theorem meetsBox_eq_false (h : s.isEmpty = true ∨ b.isEmpty = true) : s.meetsBox b = false := by
  rcases h with h | h <;> simp [meetsBox, h]

end Sphere

namespace Shape

/-- No query with a line or a solid is answered by a hit, also if the solid is asked. -/
structure IsUntouched (a : Shape S) : Prop where
  ray (r : Ray S) : a.meets? (.ray r) = some false
  segment (g : Segment S) : a.meets? (.segment g) = some false
  box (b : Box S) : a.meets? (.box b) = some false ∧ (Shape.box b).meets? a = some false
  sphere (s : Sphere S) : a.meets? (.sphere s) = some false ∧ (Shape.sphere s).meets? a = some false

theorem isUntouched_box {b : Box S} (h : b.isEmpty = true) : (Shape.box b).IsUntouched where
  ray r := congrArg some (Box.meetsLine_eq_false h r.line)
  segment g := congrArg some (Box.meetsLine_eq_false h g.line)
  box _ := ⟨congrArg some (Box.meetsBox_eq_false (.inl h)),
    congrArg some (Box.meetsBox_eq_false (.inr h))⟩
  sphere _ := ⟨congrArg some (Sphere.meetsBox_eq_false (.inr h)),
    congrArg some (Sphere.meetsBox_eq_false (.inr h))⟩

theorem isUntouched_sphere {s : Sphere S} (h : s.isEmpty = true) :
    (Shape.sphere s).IsUntouched where
  ray r := congrArg some (Sphere.meetsLine_eq_false h r.line)
  segment g := congrArg some (Sphere.meetsLine_eq_false h g.line)
  box _ := ⟨congrArg some (Sphere.meetsBox_eq_false (.inl h)),
    congrArg some (Sphere.meetsBox_eq_false (.inl h))⟩
  sphere _ := ⟨congrArg some (Sphere.meetsSphere_eq_false (.inl h)),
    congrArg some (Sphere.meetsSphere_eq_false (.inr h))⟩

end Shape

end Guards

variable {f : Format}

namespace Binary

variable {x lower upper : Binary f}

/-- What is beyond neither of two faces that are the wrong way round is not a number. -/
theorem not_beyond_iff_of_lt (h : upper < lower) :
    ¬ x < lower ∧ ¬ upper < x ↔ x.isNumber = false := by
  have hl := ((lt_iff upper lower).1 h).2.1
  constructor
  · rintro ⟨hlow, hup⟩
    by_contra hx
    rw [Bool.not_eq_false] at hx
    exact hup (Binary.lt_of_lt_of_le h ((Binary.not_lt hx hl).1 hlow))
  · intro hx
    cases x with
    | nan =>
      rw [lt_iff, lt_iff]
      simp [isNumber]
    | number s m hm => cases hx

end Binary

namespace Box

variable {b : Box (Binary f)} {p : Vec3 (Binary f)}

theorem exists_coord_lt_of_isEmpty (h : b.isEmpty = true) :
    ∃ i, b.greatest.coord i < b.least.coord i := by
  by_contra hle
  rw [isEmpty_eq_false_iff_coord.2 (not_exists.1 hle)] at h
  cases h

/-- Faces that are the wrong way round let pass what is not a number, and other faces what is not
beyond them. -/
theorem contains_iff_faces : b.contains p = true ↔
    ∀ i, b.greatest.coord i < b.least.coord i ∧ (p.coord i).isNumber = false ∨
      ¬ b.greatest.coord i < b.least.coord i ∧
        ¬ p.coord i < b.least.coord i ∧ ¬ b.greatest.coord i < p.coord i := by
  rw [contains_iff_coord]
  apply forall_congr'
  intro i
  by_cases h : b.greatest.coord i < b.least.coord i
  · simp only [not_beyond_iff_of_lt h, h, true_and, not_true_eq_false, false_and, or_false]
  · simp only [h, not_false_eq_true, true_and, false_and, false_or]

/-- A box that is empty contains no point whose components are numbers. -/
theorem contains_eq_false (h : b.isEmpty = true) (hp : p.All (·.isNumber = true)) :
    b.contains p = false := by
  obtain ⟨i, hlt⟩ := exists_coord_lt_of_isEmpty h
  rw [← Bool.not_eq_true, contains_iff_coord]
  intro hin
  have hnan := (not_beyond_iff_of_lt hlt).1 (hin i)
  rw [Vec3.all_iff_coord.1 hp i] at hnan
  cases hnan

end Box

/-- Empty solids are hit by nothing, whatever the bits of what they are asked for, but for points
asked of a box: those are inside if they are a number on no axis on which the faces are the wrong
way round, and not beyond a face on any other axis (`Intersects` for `Aabb` and for `Sphere`). A
point whose components are numbers never is. -/
theorem untouched_of_isEmpty (f : Format) :
    (∀ b : Box (Binary f), b.isEmpty = true → (Shape.box b).IsUntouched ∧
      (∀ p : Vec3 (Binary f), p.All (·.isNumber = true) →
        (Shape.box b).meets? (.point p) = some false) ∧
      ∀ p : Vec3 (Binary f), (Shape.box b).meets? (.point p) = some true ↔
        ∀ i, b.greatest.coord i < b.least.coord i ∧ (p.coord i).isNumber = false ∨
          ¬ b.greatest.coord i < b.least.coord i ∧
            ¬ p.coord i < b.least.coord i ∧ ¬ b.greatest.coord i < p.coord i) ∧
    ∀ s : Sphere (Binary f), s.isEmpty = true → (Shape.sphere s).IsUntouched ∧
      ∀ p : Vec3 (Binary f), (Shape.sphere s).meets? (.point p) = some false := by
  constructor
  · intro b h
    refine ⟨Shape.isUntouched_box h, ?_, ?_⟩
    · intro p hp
      exact congrArg some (Box.contains_eq_false h hp)
    · intro p
      rw [← Box.contains_iff_faces]
      exact Option.some_inj
  · intro s h
    refine ⟨Shape.isUntouched_sphere h, ?_⟩
    intro p
    exact congrArg some (Sphere.contains_eq_false h p)

/-- Not even a point at infinity is in the box to start from, and no ray meets a box that is the
wrong way round on one axis only. The sphere to start from contains not even its center. -/
theorem untouched_of_isEmpty_start :
    (Shape.box Box.empty : Shape Binary32).meets? (.point ⟨infinity, 0, -infinity⟩) = some false ∧
      (Shape.box ⟨⟨1, 0, 0⟩, ⟨0, 1, 1⟩⟩ : Shape Binary32).meets? (.ray ⟨⟨nan, 0, 0⟩, ⟨0, 0, 1⟩⟩) =
        some false ∧
      (Shape.sphere Sphere.empty : Shape Binary32).meets? (.point 0) = some false := by
  obtain ⟨hbox, hsphere⟩ := untouched_of_isEmpty .single
  refine ⟨(hbox Box.empty (by decide)).2.1 _ ⟨rfl, rfl, rfl⟩, ?_, ?_⟩
  · exact (hbox ⟨⟨1, 0, 0⟩, ⟨0, 1, 1⟩⟩ (by decide)).1.ray _
  · exact (hsphere Sphere.empty (by decide)).2 0

/-- The box to start from is said to contain a point that is no number on any axis, and a box that
is the wrong way round on one axis one that is no number there. -/
theorem contains_of_isEmpty_nan :
    ((Box.empty : Box Binary32).isEmpty = true ∧
      (Shape.box Box.empty : Shape Binary32).meets? (.point ⟨nan, nan, nan⟩) = some true) ∧
    (⟨⟨1, 0, 0⟩, ⟨0, 1, 1⟩⟩ : Box Binary32).isEmpty = true ∧
      (Shape.box ⟨⟨1, 0, 0⟩, ⟨0, 1, 1⟩⟩ : Shape Binary32).meets? (.point ⟨nan, 0, 1⟩) =
        some true := by
  decide

end HitTest
