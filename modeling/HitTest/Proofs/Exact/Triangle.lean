import HitTest.Proofs.Exact.Probe
import Mathlib.Tactic.LinearCombination

/-!
# The triangle query is exact (`intersect_line_with_tri`)

A line meets the plane of a triangle where `origin + s * direction = v0 + u * edge0 + v * edge1`.
The three scalars are found by Cramer's rule, so they are the only ones, and the query accepts them
if they belong to a point of the triangle and of the part of the line that is present.
-/

namespace HitTest

variable {K : Type} [Field K]

/-- Cramer's rule for three unknowns, with the determinants as triple products. -/
theorem Vec3.add_mul_eq_iff {e0 e1 d w : Vec3 K} (hdet : e0.dot (d.cross e1) ≠ 0) (u v s : K) :
    w + d * s = e0 * u + e1 * v ↔
      e0.dot (d.cross e1) * u = w.dot (d.cross e1) ∧
        e0.dot (d.cross e1) * v = d.dot (w.cross e0) ∧
          e0.dot (d.cross e1) * s = e1.dot (w.cross e0) := by
  rw [Vec3.ext_iff]
  simp only [dot, cross, add_x, add_y, add_z, mul_x, mul_y, mul_z] at hdet ⊢
  constructor
  · rintro ⟨hx, hy, hz⟩
    -- the inner product with a normal to two of the three vectors leaves one unknown
    refine ⟨?_, ?_, ?_⟩
    · linear_combination -(d.y * e1.z - d.z * e1.y) * hx - (d.z * e1.x - d.x * e1.z) * hy -
        (d.x * e1.y - d.y * e1.x) * hz
    · linear_combination -(e0.y * d.z - e0.z * d.y) * hx - (e0.z * d.x - e0.x * d.z) * hy -
        (e0.x * d.y - e0.y * d.x) * hz
    · linear_combination -(e0.y * e1.z - e0.z * e1.y) * hx - (e0.z * e1.x - e0.x * e1.z) * hy -
        (e0.x * e1.y - e0.y * e1.x) * hz
  · rintro ⟨hu, hv, hs⟩
    refine ⟨?_, ?_, ?_⟩
    · apply mul_left_cancel₀ hdet
      linear_combination d.x * hs - e0.x * hu - e1.x * hv
    · apply mul_left_cancel₀ hdet
      linear_combination d.y * hs - e0.y * hu - e1.y * hv
    · apply mul_left_cancel₀ hdet
      linear_combination d.z * hs - e0.z * hu - e1.z * hv

namespace Triangle

/-- The coordinates along the edges and the parameter at which a line meets a plane. -/
@[ext]
structure Solution (K : Type) where
  u : K
  v : K
  s : K

/-- The solution by Cramer's rule. -/
def solve (t : Triangle K) (p : Probe K) : Solution K :=
  let inverse := 1 / t.determinant p.direction
  let w := p.origin - t.v0
  ⟨inverse * w.dot (p.direction.cross t.edge1), inverse * p.direction.dot (w.cross t.edge0),
    inverse * t.edge1.dot (w.cross t.edge0)⟩

variable {t : Triangle K} {p : Probe K}

/-- A line that is not parallel meets the plane once, where Cramer's rule says. -/
theorem pointAt_eq_iff (hdet : t.determinant p.direction ≠ 0) (x : Solution K) :
    p.pointAt x.s = t.pointAt x.u x.v ↔ x = t.solve p := by
  have hshift : p.pointAt x.s = t.pointAt x.u x.v ↔
      (p.origin - t.v0) + p.direction * x.s = t.edge0 * x.u + t.edge1 * x.v := by
    rw [Vec3.ext_iff, Vec3.ext_iff]
    simp only [Probe.pointAt, pointAt, Vec3.add_x, Vec3.add_y, Vec3.add_z, Vec3.sub_x, Vec3.sub_y,
      Vec3.sub_z, sub_add_eq_add_sub, sub_eq_iff_eq_add', add_assoc]
  rw [hshift, Vec3.add_mul_eq_iff hdet, Solution.ext_iff]
  simp only [solve, one_div, eq_inv_mul_iff_mul_eq₀ hdet]
  rfl

variable [LinearOrder K] {P : Exact.Params K}

/-- A solution on the triangle and on the part of the line that is present. -/
def Solution.IsHit (p : Probe K) (x : Solution K) : Prop :=
  0 ≤ x.u ∧ 0 ≤ x.v ∧ x.u + x.v ≤ 1 ∧ p.InDomain x.s

@[simp] theorem map_v0 : (t.map (Exact.value : K → Exact P)).v0 =
    t.v0.map Exact.value := by rfl

@[simp] theorem edge0_map :
    (t.map (Exact.value : K → Exact P)).edge0 = t.edge0.map Exact.value := Vec3.map_sub_map _ _

@[simp] theorem edge1_map :
    (t.map (Exact.value : K → Exact P)).edge1 = t.edge1.map Exact.value := Vec3.map_sub_map _ _

@[simp] theorem determinant_map (d : Vec3 K) :
    (t.map (Exact.value : K → Exact P)).determinant (d.map Exact.value) =
      Exact.value (t.determinant d) := by
  simp [determinant]

@[simp] theorem pointAt_map (u v : K) : (t.map (Exact.value : K → Exact P)).pointAt (.value u)
    (.value v) = (t.pointAt u v).map Exact.value := by
  simp [pointAt]

/-- A line is parallel to a triangle if the determinant is not above the threshold. -/
theorem crossing_of_le (h : |t.determinant p.direction| ≤ P.minPositive) :
    (t.map (Exact.value : K → Exact P)).crossing (p.map Exact.value).line = .parallel := by
  simp [crossing, h]

variable [IsStrictOrderedRing K]

/-- Otherwise the query decides by the solution, coordinate by coordinate. -/
theorem crossing_of_lt (h : P.minPositive < |t.determinant p.direction|) :
    ((t.solve p).IsHit p →
      (t.map (Exact.value : K → Exact P)).crossing (p.map Exact.value).line =
        .hit (.value (t.solve p).u) (.value (t.solve p).v) (.value (t.solve p).s)) ∧
    (¬ (t.solve p).IsHit p →
      (t.map (Exact.value : K → Exact P)).crossing (p.map Exact.value).line = .miss) := by
  have hdet : ¬ |t.determinant p.direction| ≤ P.minPositive := not_le.2 h
  unfold crossing
  have hu : 1 / (t.map Exact.value).determinant (p.map Exact.value).line.direction *
      ((p.map Exact.value).line.origin - (t.map Exact.value).v0).dot
        ((p.map Exact.value).line.direction.cross (t.map Exact.value).edge1) =
      (Exact.value (t.solve p).u : Exact P) := by simp [solve]
  have hv : 1 / (t.map Exact.value).determinant (p.map Exact.value).line.direction *
      (p.map Exact.value).line.direction.dot
        (((p.map Exact.value).line.origin - (t.map Exact.value).v0).cross
          (t.map Exact.value).edge0) =
      (Exact.value (t.solve p).v : Exact P) := by simp [solve]
  have hs : 1 / (t.map Exact.value).determinant (p.map Exact.value).line.direction *
      (t.map Exact.value).edge1.dot
        (((p.map Exact.value).line.origin - (t.map Exact.value).v0).cross
          (t.map Exact.value).edge0) =
      (Exact.value (t.solve p).s : Exact P) := by simp [solve]
  dsimp only
  rw [hu, hv, hs, if_neg (by simpa using hdet)]
  generalize t.solve p = x
  constructor
  · rintro ⟨hu, hv, huv, hs⟩
    rw [if_neg, if_neg, if_pos]
    · exact (p.containsParam_iff x.s).2 hs
    · simp [hv, huv]
    · have hle : x.u ≤ 1 := by linarith
      simp [hu, hle]
  · intro hmiss
    split_ifs with h1 h2 h3
    · rfl
    · rfl
    · simp only [Exact.zero_eq, Exact.one_eq, Exact.add_value, Exact.value_lt_value, not_or,
        not_lt] at h1 h2
      exact absurd ⟨h1.1, h2.1, h2.2, (p.containsParam_iff x.s).1 h3⟩ hmiss
    · rfl

theorem hit?_eq_some_iff (h : P.minPositive < |t.determinant p.direction|) (q : Vec3 (Exact P)) :
    (t.map Exact.value).hit? (p.map Exact.value).line = some q ↔
      (t.solve p).IsHit p ∧ q = (t.pointAt (t.solve p).u (t.solve p).v).map Exact.value := by
  obtain ⟨hhit, hmiss⟩ := crossing_of_lt h
  rw [hit?]
  by_cases hx : (t.solve p).IsHit p
  · rw [hhit hx, Crossing.point?, pointAt_map, Option.some_inj]
    simp [hx, eq_comm]
  · rw [hmiss hx, Crossing.point?]
    simp [hx]

/-- Up to a threshold the determinant counts as zero and nothing is hit (`intersect_line_with_tri`).
Above it a point is hit if and only if it is on the triangle and on the part of the line that is
present; it has then only one representation by coordinates along the edges and a parameter of the
line. The triangle is said to meet the line when a point is hit. -/
theorem hit_iff_exists (t : Triangle K) (p : Probe K) :
    (|t.determinant p.direction| ≤ P.minPositive →
      (t.map (Exact.value : K → Exact P)).hit? (p.map Exact.value).line = none) ∧
    (P.minPositive < |t.determinant p.direction| →
      (∀ q : Vec3 (Exact P), (t.map Exact.value).hit? (p.map Exact.value).line = some q ↔
        ∃ u v s : K, 0 ≤ u ∧ 0 ≤ v ∧ u + v ≤ 1 ∧ p.InDomain s ∧
          p.pointAt s = t.pointAt u v ∧ q = (p.pointAt s).map Exact.value) ∧
      ∃! x : Solution K, p.pointAt x.s = t.pointAt x.u x.v) ∧
    (Shape.triangle (t.map (Exact.value : K → Exact P))).meets? (p.map Exact.value).shape =
      some ((t.map (Exact.value : K → Exact P)).hit? (p.map Exact.value).line).isSome := by
  refine ⟨?_, ?_, ?_⟩
  · intro h
    rw [hit?, crossing_of_le h, Crossing.point?]
  · intro h
    have hdet : t.determinant p.direction ≠ 0 := abs_pos.1 (P.minPositive_pos.trans h)
    constructor
    · intro q
      rw [hit?_eq_some_iff h]
      constructor
      · rintro ⟨⟨hu, hv, huv, hs⟩, rfl⟩
        have hpoint := (pointAt_eq_iff hdet _).2 rfl
        exact ⟨_, _, _, hu, hv, huv, hs, hpoint, by rw [hpoint]⟩
      · rintro ⟨u, v, s, hu, hv, huv, hs, hpoint, rfl⟩
        have hx := (pointAt_eq_iff hdet ⟨u, v, s⟩).1 hpoint
        rw [← hx, hpoint]
        exact ⟨⟨hu, hv, huv, hs⟩, rfl⟩
    · refine ⟨t.solve p, (pointAt_eq_iff hdet _).2 rfl, ?_⟩
      intro y hy
      exact (pointAt_eq_iff hdet y).1 hy
  · cases p <;> rfl

/-- A ray straight down onto a triangle hits the point below its origin. -/
theorem hit_iff_exists_down :
    (Triangle.map Exact.value ⟨⟨0, 0, 0⟩, ⟨1, 0, 0⟩, ⟨0, 1, 0⟩⟩ :
        Triangle (Exact (.real 1 (1 / 2) one_half_pos))).hit?
      (Probe.map Exact.value (.ray ⟨⟨1 / 4, 1 / 2, 1⟩, ⟨0, 0, -1⟩⟩)).line =
    some (Vec3.map Exact.value ⟨1 / 4, 1 / 2, 0⟩) := by
  have hdet : (1 / 2 : ℝ) < |determinant ⟨⟨0, 0, 0⟩, ⟨1, 0, 0⟩, ⟨0, 1, 0⟩⟩
      (Probe.ray ⟨⟨1 / 4, 1 / 2, 1⟩, ⟨0, 0, -1⟩⟩).direction| := by
    norm_num [determinant, edge0, edge1, Vec3.dot, Vec3.cross, Probe.direction]
  have h := ((hit_iff_exists (P := .real 1 (1 / 2) one_half_pos) ⟨⟨0, 0, 0⟩, ⟨1, 0, 0⟩, ⟨0, 1, 0⟩⟩
    (.ray ⟨⟨1 / 4, 1 / 2, 1⟩, ⟨0, 0, -1⟩⟩)).2.1 hdet).1
  rw [h]
  refine ⟨1 / 4, 1 / 2, 1, ?_⟩
  norm_num [Probe.InDomain, Probe.pointAt, pointAt, edge0, edge1, Vec3.ext_iff, Probe.origin,
    Probe.direction]

end Triangle

end HitTest
