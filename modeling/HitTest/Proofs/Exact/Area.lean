import HitTest.Proofs.Exact.Draw
import HitTest.Proofs.Exact.Plane
import Mathlib.Data.List.Permutation

/-!
# The area of a triangle (`Triangle::area`)

The area is computed from the lengths of the sides, and half the length of the normal is computed
from the edges. Without rounding they are the same. Heron's product is a polynomial in the squared
lengths of the sides, and by the theorem of cosines the one that the identity of Lagrange reduces to
the squared length of the normal. So the product is never below zero, and it does not depend on the
order of the vertices.
-/

namespace HitTest

open Exact

namespace Triangle

section Product

variable {S : Type} [Scalar S]

/-- Heron's product: half the circumference times what it exceeds each of the sides by. -/
def heron (t : Triangle S) : S :=
  let a := (t.v0 - t.v1).norm
  let b := (t.v1 - t.v2).norm
  let c := (t.v2 - t.v0).norm
  let s := (a + b + c) / Scalar.two
  s * (s - a) * (s - b) * (s - c)

theorem area_eq (t : Triangle S) : t.area = Scalar.sqrt (max t.heron 0) := rfl

end Product

/-! ## Heron's product without rounding -/

/-- Heron's product is one of the squared lengths, two of them apart from the third. -/
theorem heron_identity (a b c : ℝ) :
    (a + b + c) / 2 * ((a + b + c) / 2 - a) * ((a + b + c) / 2 - b) * ((a + b + c) / 2 - c) =
      (4 * (a ^ 2 * c ^ 2) - (a ^ 2 + c ^ 2 - b ^ 2) ^ 2) / 16 := by
  ring

variable (t : Triangle ℝ)

/-- The theorem of cosines, with the sides as differences of the vertices. -/
theorem sides_eq : (t.v0 - t.v1).normSq = t.edge0.dot t.edge0 ∧
    (t.v2 - t.v0).normSq = t.edge1.dot t.edge1 ∧
    (t.v0 - t.v1).normSq + (t.v2 - t.v0).normSq - (t.v1 - t.v2).normSq =
      2 * t.edge0.dot t.edge1 := by
  refine ⟨?_, rfl, ?_⟩
  all_goals
    simp only [edge0, edge1, Vec3.normSq, Vec3.dot, Vec3.sub_x, Vec3.sub_y, Vec3.sub_z]
    ring

/-- Every order of the vertices gives the normal the same length. -/
theorem normSq_scaledNormal_of_perm {u t : Triangle ℝ}
    (h : [u.v0, u.v1, u.v2].Perm [t.v0, t.v1, t.v2]) :
    u.scaledNormal.normSq = t.scaledNormal.normSq := by
  obtain ⟨a, b, c⟩ := u
  rw [← List.mem_permutations'] at h
  simp only [List.permutations', List.permutations'Aux, List.mem_cons, List.flatMap_cons,
    List.flatMap_nil, List.map_cons, List.map_nil, List.append_nil, List.cons_append,
    List.nil_append, List.cons.injEq, List.not_mem_nil, and_true, or_false] at h
  rcases h with ⟨rfl, rfl, rfl⟩ | ⟨rfl, rfl, rfl⟩ | ⟨rfl, rfl, rfl⟩ | ⟨rfl, rfl, rfl⟩ |
    ⟨rfl, rfl, rfl⟩ | ⟨rfl, rfl, rfl⟩
  · rfl
  all_goals
    simp only [scaledNormal, edge0, edge1, Vec3.normSq, Vec3.dot, Vec3.cross, Vec3.sub_x,
      Vec3.sub_y, Vec3.sub_z]
    ring

variable {ε τ : ℝ} {h : 0 < τ}

/-- Heron's product is a quarter of the squared length of the normal. -/
theorem heron_map : (t.map (value : ℝ → Exact (.real ε τ h))).heron =
    value (t.scaledNormal.normSq / 4) := by
  have hsq : ∀ a : Vec3 ℝ, √a.normSq ^ 2 = a.normSq := fun a => Real.sq_sqrt a.zero_le_normSq
  obtain ⟨ha, hc, hcos⟩ := t.sides_eq
  simp only [heron, map, Vec3.norm, Vec3.map_sub_map, Vec3.normSq_map, sqrt_value, Params.real_sqrt,
    add_value, sub_value, mul_value, div_value, two_eq]
  rw [heron_identity, hsq, hsq, hsq, hcos, ha, hc, ← gram_eq_normSq, gram]
  congr 1
  ring

/-- So there is nothing below zero to bring back. -/
theorem max_heron_map : max (t.map (value : ℝ → Exact (.real ε τ h))).heron 0 =
    (t.map (value : ℝ → Exact (.real ε τ h))).heron := by
  rw [heron_map, zero_eq]
  exact max_eq_left (value_le_value.2 (div_nonneg t.scaledNormal.zero_le_normSq zero_le_four))

/-- The root of a quarter of a squared length is half the length. -/
theorem area_map : (t.map (value : ℝ → Exact (.real ε τ h))).area =
    value (√t.scaledNormal.normSq / 2) := by
  have hroot : √(t.scaledNormal.normSq / 4) = √t.scaledNormal.normSq / 2 := by
    rw [Real.sqrt_div' _ zero_le_four, show (4 : ℝ) = 2 ^ 2 by norm_num, Real.sqrt_sq zero_le_two]
  rw [area_eq, max_heron_map, heron_map, sqrt_value, Params.real_sqrt, hroot]

/-! ## The two areas -/

/-- Without rounding the area from the lengths of the sides is half the length of the normal, also
where the vertices are on a line or the same (`Triangle::area`, `Triangle::scaled_normal`). Heron's
product is never below zero, so it is not changed before the root is taken, and every order of the
vertices gives the same area. -/
theorem area_eq_half_norm (t : Triangle ℝ) :
    (t.map (value : ℝ → Exact (.real ε τ h))).area =
        (t.map (value : ℝ → Exact (.real ε τ h))).scaledNormal.norm / Scalar.two ∧
      max (t.map (value : ℝ → Exact (.real ε τ h))).heron 0 =
        (t.map (value : ℝ → Exact (.real ε τ h))).heron ∧
      (t.map (value : ℝ → Exact (.real ε τ h))).area =
        Scalar.sqrt (t.map (value : ℝ → Exact (.real ε τ h))).heron ∧
      ∀ u : Triangle ℝ, [u.v0, u.v1, u.v2].Perm [t.v0, t.v1, t.v2] →
        (u.map (value : ℝ → Exact (.real ε τ h))).area = (t.map value).area := by
  refine ⟨?normal, t.max_heron_map, ?unclamped, fun u hu => ?order⟩
  case normal =>
    rw [area_map, scaledNormal_map, Vec3.norm, Vec3.normSq_map, sqrt_value, Params.real_sqrt, two_eq,
      div_value]
  case unclamped => rw [area_eq, max_heron_map]
  case order => rw [area_map, area_map, normSq_scaledNormal_of_perm hu]

/-- A triangle with all vertices on a line has no area, and a triangle with sides of three, four and
five has the same one in another order. -/
theorem area_eq_half_norm_flat :
    (Triangle.map value ⟨⟨0, 0, 0⟩, ⟨1, 1, 1⟩, ⟨2, 2, 2⟩⟩ :
        Triangle (Exact (.real 1 (1 / 2) one_half_pos))).area = 0 ∧
      (Triangle.map value ⟨⟨0, 4, 0⟩, 0, ⟨3, 0, 0⟩⟩ :
          Triangle (Exact (.real 1 (1 / 2) one_half_pos))).area =
        (Triangle.map value ⟨0, ⟨3, 0, 0⟩, ⟨0, 4, 0⟩⟩).area := by
  constructor
  · rw [(area_eq_half_norm _).1]
    simp [scaledNormal, edge0, edge1, Vec3.norm, Vec3.normSq, Vec3.dot, Vec3.cross, map]
  · refine (area_eq_half_norm ⟨0, ⟨3, 0, 0⟩, ⟨0, 4, 0⟩⟩).2.2.2 ⟨⟨0, 4, 0⟩, 0, ⟨3, 0, 0⟩⟩ ?_
    exact @List.perm_append_comm _ [_] [_, _]

end Triangle

end HitTest
