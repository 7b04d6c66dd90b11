import HitTest.Proofs.Exact.Plane
import HitTest.Proofs.Exact.Projection

/-!
# The weights at a point are those of its projection (`Triangle::barycentric_at`)

The weights of the vertices at a point are computed from the inner products of its offset with the
edges. This is Cramer's rule for the two equations that say that the way from the projection to the
point is perpendicular to both edges, and so to the plane. The weights of a point of the plane are
therefore those it is given by, and the weights of any other point are those of the nearest point of
the plane. The divisor is the squared length of the normal, which is zero only if one edge is a
multiple of the other.
-/

namespace HitTest

variable {K : Type} [Field K]

/-! ## Perpendicular vectors -/

namespace Vec3

/-- The inner product of two vectors, by their components along a normal and across it. -/
theorem dot_mul_normSq_cross (r y e0 e1 : Vec3 K) :
    r.dot y * (e0.cross e1).normSq = r.dot (e0.cross e1) * (e0.cross e1).dot y +
      r.dot e1 * e0.dot (y.cross (e0.cross e1)) - r.dot e0 * e1.dot (y.cross (e0.cross e1)) := by
  simp only [dot, cross, normSq]
  ring

/-- What is perpendicular to two vectors is perpendicular to all that is perpendicular to their
normal. -/
theorem dot_eq_zero_of_perpendicular {r y e0 e1 : Vec3 K} (hn : (e0.cross e1).normSq ≠ 0)
    (h0 : r.dot e0 = 0) (h1 : r.dot e1 = 0) (hy : (e0.cross e1).dot y = 0) : r.dot y = 0 := by
  apply mul_right_cancel₀ hn
  rw [dot_mul_normSq_cross, h0, h1, hy]
  ring

end Vec3

/-! ## Weights -/

/-- The weights with a function applied to each. -/
def Barycentric.map {S T : Type} (g : S → T) (b : Barycentric S) : Barycentric T :=
  ⟨g b.w, g b.u, g b.v⟩

namespace Triangle

variable (t : Triangle K) (p : Vec3 K)

/-- The solution of the two equations for the projection of a point, and what is left of one. -/
def weights : Barycentric K :=
  let d := p - t.v0
  let u := (t.edge1.dot t.edge1 * d.dot t.edge0 - t.edge0.dot t.edge1 * d.dot t.edge1) / t.gram
  let v := (t.edge0.dot t.edge0 * d.dot t.edge1 - t.edge0.dot t.edge1 * d.dot t.edge0) / t.gram
  ⟨1 - u - v, u, v⟩

/-- The point of the plane that has the weights of a point. -/
def project : Vec3 K := t.pointAt (t.weights p).u (t.weights p).v

/-- The points of the plane of a triangle, by its normal. -/
def InPlane (x : Vec3 K) : Prop := t.scaledNormal.dot (x - t.v0) = 0

/-- Neither edge is a multiple of the other. -/
def IsIndependent : Prop := ∀ a b : K, t.edge0 * a + t.edge1 * b = 0 → a = 0 ∧ b = 0

theorem weights_add : (t.weights p).w + (t.weights p).u + (t.weights p).v = 1 := by
  simp only [weights]
  ring

theorem inPlane_pointAt (u v : K) : t.InPlane (t.pointAt u v) := by
  simp only [InPlane, pointAt, scaledNormal, Vec3.dot, Vec3.cross, Vec3.sub_x, Vec3.sub_y,
    Vec3.sub_z, Vec3.add_x, Vec3.add_y, Vec3.add_z, Vec3.mul_x, Vec3.mul_y, Vec3.mul_z]
  ring

variable {t}

/-- From one point of the plane to another it is perpendicular to the normal. -/
theorem InPlane.dot_sub {x q : Vec3 K} (hx : t.InPlane x) (hq : t.InPlane q) :
    t.scaledNormal.dot (x - q) = 0 := by
  have hsub : t.scaledNormal.dot (x - q) =
      t.scaledNormal.dot (x - t.v0) - t.scaledNormal.dot (q - t.v0) := by
    simp only [Vec3.dot, Vec3.sub_x, Vec3.sub_y, Vec3.sub_z]
    ring
  rw [InPlane] at hx hq
  rw [hsub, hx, hq, sub_zero]

/-- The way to a point from one of the plane, along a vector. -/
theorem sub_pointAt_dot (u v : K) (e : Vec3 K) : (p - t.pointAt u v).dot e =
    (p - t.v0).dot e - (t.edge0.dot e * u + t.edge1.dot e * v) := by
  rw [← Vec3.add_mul_dot]
  simp only [pointAt, Vec3.dot, Vec3.sub_x, Vec3.sub_y, Vec3.sub_z, Vec3.add_x, Vec3.add_y,
    Vec3.add_z]
  ring

/-- The way from the projection to the point is perpendicular to both edges. -/
theorem sub_project_dot_edges (hgram : t.gram ≠ 0) :
    (p - t.project p).dot t.edge0 = 0 ∧ (p - t.project p).dot t.edge1 = 0 := by
  rw [project, sub_pointAt_dot, sub_pointAt_dot, Vec3.dot_comm t.edge1 t.edge0, sub_eq_zero,
    sub_eq_zero]
  simp only [weights, mul_div_assoc']
  rw [← add_div, ← add_div, eq_div_iff hgram, eq_div_iff hgram, gram]
  constructor
  · ring
  · ring

section Ordered

variable [LinearOrder K] {P : Exact.Params K}

theorem barycentricAt_map : (t.map (Exact.value : K → Exact P)).barycentricAt (p.map Exact.value) =
    (t.weights p).map Exact.value := by
  simp [barycentricAt, weights, Barycentric.map]

variable [IsStrictOrderedRing K]

/-- The edges are independent if and only if the weights have a divisor. -/
theorem isIndependent_iff_gram_ne_zero : t.IsIndependent ↔ t.gram ≠ 0 := by
  constructor
  · intro h hgram
    -- the part of the first edge across the second one, multiplied by the squared length of that
    have hacross : t.edge0 * t.edge1.dot t.edge1 + t.edge1 * -t.edge0.dot t.edge1 = 0 := by
      apply Vec3.eq_zero_of_normSq_nonpos
      have hsq : (t.edge0 * t.edge1.dot t.edge1 + t.edge1 * -t.edge0.dot t.edge1).normSq =
          t.edge1.dot t.edge1 * t.gram := by
        simp only [Vec3.normSq, gram, Vec3.dot, Vec3.add_x, Vec3.add_y, Vec3.add_z, Vec3.mul_x,
          Vec3.mul_y, Vec3.mul_z]
        ring
      rw [hsq, hgram, mul_zero]
    have hedge : t.edge1 = 0 := Vec3.eq_zero_of_normSq_nonpos (h _ _ hacross).1.le
    have hone := (h 0 1 (by rw [hedge]; ext <;> simp)).2
    exact one_ne_zero hone
  · intro hgram a b h
    -- the inner products with the edges are a system whose determinant is the divisor
    have hdot : ∀ e, t.edge0.dot e * a + t.edge1.dot e * b = 0 := by
      intro e
      rw [← Vec3.add_mul_dot, h]
      simp [Vec3.dot]
    have h0 := hdot t.edge0
    have h1 := hdot t.edge1
    rw [Vec3.dot_comm t.edge1 t.edge0] at h0
    constructor
    · apply mul_left_cancel₀ hgram
      rw [gram]
      linear_combination t.edge1.dot t.edge1 * h0 - t.edge0.dot t.edge1 * h1
    · apply mul_left_cancel₀ hgram
      rw [gram]
      linear_combination t.edge0.dot t.edge0 * h1 - t.edge0.dot t.edge1 * h0

/-- The projection is the one nearest point of the plane. -/
theorem isNearest_project (hgram : t.gram ≠ 0) : Vec3.IsNearest t.InPlane p (t.project p) := by
  obtain ⟨h0, h1⟩ := sub_project_dot_edges p hgram
  refine .of_dot_nonpos (t.inPlane_pointAt _ _) fun x hx => le_of_eq ?_
  have hnormal : (t.edge0.cross t.edge1).normSq ≠ 0 := by
    rwa [gram_eq_normSq] at hgram
  exact Vec3.dot_eq_zero_of_perpendicular hnormal h0 h1 (hx.dot_sub (t.inPlane_pointAt _ _))

/-- Let the edges of a triangle be independent. Then the divisor of the weights (`denom` in
`Triangle::barycentric_at`) is the squared length of the normal and not zero. The weights of a point
that is given by coordinates along the edges (`Triangle::point_at`) are these coordinates and what
they are short of one. The weights of any point add up to one, and the point that has them is where
the point projects to: the way between the two is perpendicular to the edges, no point of the plane
is as near, and a point of the plane is that point itself. -/
theorem barycentricAt_project (t : Triangle K) (ht : t.IsIndependent) :
    (∀ u v : K, (t.map (Exact.value : K → Exact P)).barycentricAt
        ((t.map Exact.value).pointAt (.value u) (.value v)) =
          ⟨.value (1 - u - v), .value u, .value v⟩) ∧
    (∀ p : Vec3 K, ∃ w u v : K,
      (t.map (Exact.value : K → Exact P)).barycentricAt (p.map Exact.value) =
        ⟨.value w, .value u, .value v⟩ ∧ w + u + v = 1 ∧
      (p - t.pointAt u v).dot t.edge0 = 0 ∧ (p - t.pointAt u v).dot t.edge1 = 0 ∧
      Vec3.IsNearest t.InPlane p (t.pointAt u v) ∧ (t.InPlane p → t.pointAt u v = p)) ∧
    (t.map (Exact.value : K → Exact P)).gram = (t.map Exact.value).scaledNormal.normSq ∧
      (t.map (Exact.value : K → Exact P)).gram ≠ 0 := by
  have hgram := isIndependent_iff_gram_ne_zero.1 ht
  refine ⟨fun u v => ?_, fun p => ?_, ?_, ?_⟩
  · rw [pointAt_map]
    exact barycentricAt_pointAt hgram u v
  · have hnearest := isNearest_project p hgram
    obtain ⟨h0, h1⟩ := sub_project_dot_edges p hgram
    refine ⟨_, _, _, barycentricAt_map p, t.weights_add p, h0, h1, hnearest, fun hp => ?_⟩
    -- from itself a point has no distance
    have hle := hnearest.distSq_le p hp
    have hself : p.distSq p = 0 := by simp [Vec3.distSq, Vec3.normSq, Vec3.dot]
    exact Vec3.eq_of_distSq_nonpos (hself ▸ hle)
  · rw [gram_map, scaledNormal_map, Vec3.normSq_map, gram_eq_normSq]
  · rw [gram_map, Exact.zero_eq]
    exact fun h => hgram (Exact.value.inj h)

/-- A point above a triangle has the weights of the point below it. -/
theorem barycentricAt_project_above :
    (Triangle.map Exact.value ⟨⟨-1, -1, 0⟩, ⟨1, -1, 0⟩, ⟨0, 1, 0⟩⟩ :
        Triangle (Exact (.real 1 (1 / 2) one_half_pos))).barycentricAt
      (Vec3.map Exact.value ⟨0, 0, 5⟩) = ⟨.value (1 / 4), .value (1 / 4), .value (1 / 2)⟩ := by
  have hindependent : IsIndependent (⟨⟨-1, -1, 0⟩, ⟨1, -1, 0⟩, ⟨0, 1, 0⟩⟩ : Triangle ℝ) := by
    rw [isIndependent_iff_gram_ne_zero]
    norm_num [gram, edge0, edge1, Vec3.dot]
  obtain ⟨-, hproject, -⟩ := barycentricAt_project (P := .real 1 (1 / 2) one_half_pos)
    ⟨⟨-1, -1, 0⟩, ⟨1, -1, 0⟩, ⟨0, 1, 0⟩⟩ hindependent
  obtain ⟨w, u, v, hweights, hsum, h0, h1, -⟩ := hproject ⟨0, 0, 5⟩
  rw [hweights]
  norm_num [pointAt, edge0, edge1, Vec3.dot] at h0 h1
  obtain rfl : v = 1 / 2 := by linarith
  obtain rfl : u = 1 / 4 := by linarith
  obtain rfl : w = 1 / 4 := by linarith
  rfl

end Ordered

end Triangle

end HitTest
