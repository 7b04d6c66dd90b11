import HitTest.Proofs.Binary.Order
import HitTest.Proofs.Vec3
import HitTest.Query.Solid

/-!
# Inside a solid

A box is asked for a point by comparisons that reject, a sphere by one that accepts. Where the
corners and the point are numbers, not being rejected is being between the faces.
-/

namespace HitTest

open Binary

variable {f : Format}

namespace Box

/-- Both corners are numbers. -/
def IsNumeric (b : Box (Binary f)) : Prop :=
  b.least.All (·.isNumber = true) ∧ b.greatest.All (·.isNumber = true)

/-- What is not beyond a face is between the faces. -/
theorem contains_iff {b : Box (Binary f)} (hb : b.IsNumeric) {p : Vec3 (Binary f)}
    (hp : p.All (·.isNumber = true)) :
    b.contains p = true ↔ (b.least.x ≤ p.x ∧ p.x ≤ b.greatest.x) ∧
      (b.least.y ≤ p.y ∧ p.y ≤ b.greatest.y) ∧ (b.least.z ≤ p.z ∧ p.z ≤ b.greatest.z) := by
  obtain ⟨⟨hx1, hy1, hz1⟩, hx2, hy2, hz2⟩ := hb
  obtain ⟨hx, hy, hz⟩ := hp
  simp only [contains, excludes, Bool.not_eq_true', Bool.or_eq_false_iff, decide_eq_false_iff_not,
    not_lt_iff_value, le_iff_value, *, and_assoc]

/-- The faces of every axis are in order, unless the box is empty. -/
theorem isEmpty_eq_false_iff_le {b : Box (Binary f)} (hb : b.IsNumeric) : b.isEmpty = false ↔
    b.least.x ≤ b.greatest.x ∧ b.least.y ≤ b.greatest.y ∧ b.least.z ≤ b.greatest.z := by
  obtain ⟨⟨hx1, hy1, hz1⟩, hx2, hy2, hz2⟩ := hb
  simp only [isEmpty, Bool.or_eq_false_iff, decide_eq_false_iff_not, Binary.not_lt, *, and_assoc]

/-- What contains a point is not empty. -/
theorem isEmpty_eq_false_of_contains {b : Box (Binary f)} (hb : b.IsNumeric) {p : Vec3 (Binary f)}
    (hp : p.All (·.isNumber = true)) (h : b.contains p = true) : b.isEmpty = false := by
  obtain ⟨⟨hx1, hx2⟩, ⟨hy1, hy2⟩, hz1, hz2⟩ := (contains_iff hb hp).1 h
  exact (isEmpty_eq_false_iff_le hb).2
    ⟨Binary.le_trans hx1 hx2, Binary.le_trans hy1 hy2, Binary.le_trans hz1 hz2⟩

end Box

namespace Sphere

variable {s : Sphere (Binary f)}

theorem contains_iff {p : Vec3 (Binary f)} :
    s.contains p = true ↔ s.isEmpty = false ∧ s.center.distSq p ≤ s.radiusSq := by
  simp [contains]

theorem isEmpty_eq_false (hr : 0 ≤ s.radius) : s.isEmpty = false := by
  rw [isEmpty, decide_eq_false_iff_not, Binary.not_lt (isNumber_right hr) rfl]
  exact hr

end Sphere

end HitTest
