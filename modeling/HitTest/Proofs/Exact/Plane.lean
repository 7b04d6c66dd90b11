import HitTest.Proofs.Exact.Triangle

/-!
# The plane of a triangle (`Triangle::plane`, `intersect_line_with_plane`)

A line crosses the plane of a triangle where the triangle query looks for it, and the triangle is
the part of its plane where no vertex has a negative weight. So a line may be asked for its point in
the plane first, and the point for its weights afterwards. What ties the two ways together is the
scaled normal: its squared length is what the inner products of the edges are divided by, and its
inner product with the direction is, up to the sign, the determinant of Cramer's rule.
-/

namespace HitTest

/-! ## Inner products -/

namespace Vec3

variable {K : Type} [Field K]

theorem dot_comm (a b : Vec3 K) : a.dot b = b.dot a := by
  simp only [dot]
  ring

theorem add_mul_dot (a b c : Vec3 K) (u v : K) :
    (a * u + b * v).dot c = a.dot c * u + b.dot c * v := by
  simp only [dot, add_x, add_y, add_z, mul_x, mul_y, mul_z]
  ring

end Vec3

/-! ## Lines and planes -/

namespace Plane

variable {S T K : Type} [Field K]

/-- The plane with a function applied to every scalar. -/
def map (g : S → T) (pl : Plane S) : Plane T := ⟨pl.normal.map g, g pl.offset⟩

/-- The parameter at which a line crosses a plane. -/
def solve (pl : Plane K) (p : Probe K) : K :=
  -(pl.normal.dot p.origin + pl.offset) / pl.normal.dot p.direction

variable {pl : Plane K} {p : Probe K}

/-- A line that is not parallel to a plane has one point in it. -/
theorem eq_solve_iff (h : pl.normal.dot p.direction ≠ 0) (s : K) :
    s = pl.solve p ↔ pl.normal.dot (p.pointAt s) + pl.offset = 0 := by
  have hpoint : pl.normal.dot (p.pointAt s) =
      pl.normal.dot p.origin + s * pl.normal.dot p.direction := by
    simp only [Probe.pointAt, Vec3.dot, Vec3.add_x, Vec3.add_y, Vec3.add_z, Vec3.mul_x, Vec3.mul_y,
      Vec3.mul_z]
    ring
  rw [solve, eq_div_iff h, hpoint, eq_neg_iff_add_eq_zero, add_right_comm, add_comm]

variable [LinearOrder K] {P : Exact.Params K}

/-- A line is parallel to a plane if it rises along the normal by no more than the threshold. -/
theorem hit?_of_le (h : |pl.normal.dot p.direction| ≤ P.minPositive) :
    (pl.map (Exact.value : K → Exact P)).hit? (p.map Exact.value).line = none := by
  simp [hit?, crossing?, map, h]

/-- Otherwise it crosses the plane once, and is hit there if it is present. -/
theorem hit?_eq_some_iff (h : P.minPositive < |pl.normal.dot p.direction|) (q : Vec3 (Exact P)) :
    (pl.map Exact.value).hit? (p.map Exact.value).line = some q ↔
      p.InDomain (pl.solve p) ∧ q = (p.pointAt (pl.solve p)).map Exact.value := by
  have hsolve : -(pl.map Exact.value).distanceTo (p.map Exact.value).line.origin /
      (pl.map Exact.value).normal.dot (p.map Exact.value).line.direction =
        (Exact.value (pl.solve p) : Exact P) := by
    simp [distanceTo, map, solve]
  have hpoint : (p.map Exact.value).line.pointAt (Exact.value (pl.solve p)) =
      ((p.pointAt (pl.solve p)).map Exact.value : Vec3 (Exact P)) := by
    simp [Line.pointAt, Probe.pointAt]
  rw [hit?, crossing?]
  dsimp only
  rw [hsolve, if_neg (by simpa [map] using h)]
  by_cases hs : p.InDomain (pl.solve p)
  · rw [if_pos ((p.containsParam_iff _).2 hs), Option.map_some, hpoint]
    simp [hs, eq_comm]
  · rw [if_neg (mt (p.containsParam_iff _).1 hs)]
    simp [hs]

end Plane

/-! ## Weights -/

/-- No vertex has a negative weight. -/
def Barycentric.IsInside {S : Type} [Zero S] [LE S] (b : Barycentric S) : Prop :=
  0 ≤ b.w ∧ 0 ≤ b.u ∧ 0 ≤ b.v

namespace Triangle

section Field

variable {K : Type} [Field K] (t : Triangle K)

/-- The identity of Lagrange. -/
theorem gram_eq_normSq : t.gram = t.scaledNormal.normSq := by
  simp only [gram, scaledNormal, Vec3.normSq, Vec3.dot, Vec3.cross]
  ring

/-- A triple product changes its sign when two of the vectors change places. -/
theorem determinant_eq_neg_dot (d : Vec3 K) : t.determinant d = -d.dot t.scaledNormal := by
  simp only [determinant, scaledNormal, Vec3.dot, Vec3.cross]
  ring

/-- The plane of a triangle, with a multiple of the scaled normal. -/
def planeScaled (c : K) : Plane K := ⟨t.scaledNormal * c, -(t.scaledNormal * c).dot t.v0⟩

theorem planeScaled_normal_dot (c : K) (d : Vec3 K) :
    (t.planeScaled c).normal.dot d = -(c * t.determinant d) := by
  rw [determinant_eq_neg_dot]
  simp only [planeScaled, Vec3.dot, Vec3.mul_x, Vec3.mul_y, Vec3.mul_z]
  ring

/-- The normal is perpendicular to the edges. -/
theorem planeScaled_contains_pointAt (c u v : K) :
    (t.planeScaled c).normal.dot (t.pointAt u v) + (t.planeScaled c).offset = 0 := by
  simp only [planeScaled, pointAt, scaledNormal, Vec3.dot, Vec3.cross, Vec3.add_x, Vec3.add_y,
    Vec3.add_z, Vec3.mul_x, Vec3.mul_y, Vec3.mul_z]
  ring

variable {t} {p : Probe K}

/-- A line crosses the plane at the parameter that Cramer's rule gives, since the point it has there
is one of the plane. -/
theorem planeScaled_solve {c : K} (hc : c ≠ 0) (hdet : t.determinant p.direction ≠ 0) :
    (t.planeScaled c).solve p = (t.solve p).s := by
  have hslope : (t.planeScaled c).normal.dot p.direction ≠ 0 := by
    rw [planeScaled_normal_dot]
    exact neg_ne_zero.2 (mul_ne_zero hc hdet)
  have hpoint : p.pointAt (t.solve p).s = t.pointAt (t.solve p).u (t.solve p).v :=
    (pointAt_eq_iff hdet _).2 rfl
  rw [eq_comm, Plane.eq_solve_iff hslope, hpoint]
  exact t.planeScaled_contains_pointAt c _ _

variable [LinearOrder K] {P : Exact.Params K}

@[simp] theorem scaledNormal_map : (t.map (Exact.value : K → Exact P)).scaledNormal =
    t.scaledNormal.map Exact.value := by
  simp [scaledNormal]

@[simp] theorem gram_map : (t.map (Exact.value : K → Exact P)).gram = Exact.value t.gram := by
  simp [gram]

/-- The weights of a point given by coordinates along the edges. -/
theorem barycentricAt_pointAt (hgram : t.gram ≠ 0) (u v : K) :
    (t.map Exact.value).barycentricAt ((t.pointAt u v).map Exact.value) =
      (⟨.value (1 - u - v), .value u, .value v⟩ : Barycentric (Exact P)) := by
  have hd : t.pointAt u v - t.v0 = t.edge0 * u + t.edge1 * v := by
    ext <;> simp only [pointAt, Vec3.sub_x, Vec3.sub_y, Vec3.sub_z, Vec3.add_x, Vec3.add_y,
      Vec3.add_z] <;> ring
  -- the weights solve the system of the two inner products
  have hu : (t.edge1.dot t.edge1 * (t.edge0 * u + t.edge1 * v).dot t.edge0 -
      t.edge0.dot t.edge1 * (t.edge0 * u + t.edge1 * v).dot t.edge1) / t.gram = u := by
    rw [div_eq_iff hgram, Vec3.add_mul_dot, Vec3.add_mul_dot, Vec3.dot_comm t.edge1 t.edge0, gram]
    ring
  have hv : (t.edge0.dot t.edge0 * (t.edge0 * u + t.edge1 * v).dot t.edge1 -
      t.edge0.dot t.edge1 * (t.edge0 * u + t.edge1 * v).dot t.edge0) / t.gram = v := by
    rw [div_eq_iff hgram, Vec3.add_mul_dot, Vec3.add_mul_dot, Vec3.dot_comm t.edge1 t.edge0, gram]
    ring
  simp [barycentricAt, hd, hu, hv]

variable [IsStrictOrderedRing K]

/-- A line that is perpendicular to the normal hits neither the plane nor the triangle. -/
theorem hit?_of_perpendicular (h : p.direction.dot t.scaledNormal = 0) (c : K) :
    (t.map (Exact.value : K → Exact P)).hit? (p.map Exact.value).line = none ∧
      ((t.planeScaled c).map (Exact.value : K → Exact P)).hit? (p.map Exact.value).line = none := by
  have hdet : t.determinant p.direction = 0 := by rw [determinant_eq_neg_dot, h, neg_zero]
  constructor
  · rw [hit?, crossing_of_le, Crossing.point?]
    rw [hdet, abs_zero]
    exact P.minPositive_pos.le
  · apply Plane.hit?_of_le
    rw [planeScaled_normal_dot, hdet, mul_zero, neg_zero, abs_zero]
    exact P.minPositive_pos.le

/-- A line that is parallel to neither hits the triangle where it hits the plane in a point whose
weights are not negative. -/
theorem hit?_eq_some_iff_planeScaled {c : K} (hgram : t.gram ≠ 0)
    (hdet : P.minPositive < |t.determinant p.direction|)
    (hslope : P.minPositive < |(t.planeScaled c).normal.dot p.direction|) (q : Vec3 (Exact P)) :
    (t.map Exact.value).hit? (p.map Exact.value).line = some q ↔
      ((t.planeScaled c).map Exact.value).hit? (p.map Exact.value).line = some q ∧
        ((t.map Exact.value).barycentricAt q).IsInside := by
  have hdet0 : t.determinant p.direction ≠ 0 := abs_pos.1 (P.minPositive_pos.trans hdet)
  have hc : c ≠ 0 := by
    rintro rfl
    rw [planeScaled_normal_dot, zero_mul, neg_zero, abs_zero] at hslope
    exact hslope.not_gt P.minPositive_pos
  have hpoint : p.pointAt (t.solve p).s = t.pointAt (t.solve p).u (t.solve p).v :=
    (pointAt_eq_iff hdet0 _).2 rfl
  rw [hit?_eq_some_iff hdet, Plane.hit?_eq_some_iff hslope, planeScaled_solve hc hdet0, hpoint]
  -- both ask for the same point; what is left is how each tells that it is on the triangle
  have hinside : q = (t.pointAt (t.solve p).u (t.solve p).v).map Exact.value →
      (((t.map Exact.value).barycentricAt q).IsInside ↔
        0 ≤ (t.solve p).u ∧ 0 ≤ (t.solve p).v ∧ (t.solve p).u + (t.solve p).v ≤ 1) := by
    rintro rfl
    rw [barycentricAt_pointAt hgram]
    simp only [Barycentric.IsInside, Exact.zero_eq, Exact.value_le_value, sub_sub, sub_nonneg]
    tauto
  rw [Solution.IsHit]
  tauto

end Field

/-! ## The triangle as a part of its plane -/

variable {t : Triangle ℝ} {p : Probe ℝ} {ε τ : ℝ} {h : 0 < τ}

/-- The plane has the scaled normal brought to length one. -/
theorem plane_map : (t.map (Exact.value : ℝ → Exact (.real ε τ h))).plane =
    (t.planeScaled (1 / √t.scaledNormal.normSq)).map Exact.value := by
  have hnormal : (t.map (Exact.value : ℝ → Exact (.real ε τ h))).scaledNormal.normalize =
      (t.scaledNormal * (1 / √t.scaledNormal.normSq)).map Exact.value := by
    simp [Vec3.normalize, Vec3.norm]
  have hplane : (t.map (Exact.value : ℝ → Exact (.real ε τ h))).plane =
      ⟨(t.map Exact.value).scaledNormal.normalize,
        -(t.map Exact.value).scaledNormal.normalize.dot (t.map Exact.value).v0⟩ := rfl
  rw [hplane, hnormal]
  simp [planeScaled, Plane.map]

/-- Let a triangle have a normal, and let a line be perpendicular to the normal or rise along it by
more than the threshold, by the measures of both queries (`intersect_line_with_tri` and
`intersect_line_with_plane`). Then the line hits the triangle in a point if and only if it hits the
plane of the triangle there and no vertex has a negative weight at the point, and otherwise it hits
nothing. -/
theorem hit_iff_plane_hit (t : Triangle ℝ) (p : Probe ℝ) (hnormal : t.scaledNormal ≠ 0)
    (hline : p.direction.dot t.scaledNormal = 0 ∨
      (τ < |t.determinant p.direction| ∧
        Exact.value τ < Scalar.abs ((t.map (Exact.value : ℝ → Exact (.real ε τ h))).plane.normal.dot
          (p.map Exact.value).line.direction))) :
    (∀ q : Vec3 (Exact (.real ε τ h)),
      (t.map Exact.value).hit? (p.map Exact.value).line = some q ↔
        (t.map Exact.value).plane.hit? (p.map Exact.value).line = some q ∧
          ((t.map Exact.value).barycentricAt q).IsInside) ∧
    ((t.map (Exact.value : ℝ → Exact (.real ε τ h))).hit? (p.map Exact.value).line = none ↔
      ∀ q : Vec3 (Exact (.real ε τ h)),
        (t.map Exact.value).plane.hit? (p.map Exact.value).line = some q →
          ¬ ((t.map Exact.value).barycentricAt q).IsInside) := by
  have hiff : ∀ q : Vec3 (Exact (.real ε τ h)),
      (t.map Exact.value).hit? (p.map Exact.value).line = some q ↔
        (t.map Exact.value).plane.hit? (p.map Exact.value).line = some q ∧
          ((t.map Exact.value).barycentricAt q).IsInside := by
    intro q
    rw [plane_map] at hline ⊢
    rcases hline with hperp | ⟨hdet, hslope⟩
    · obtain ⟨htriangle, hplane⟩ := hit?_of_perpendicular (P := .real ε τ h) hperp
        (1 / √t.scaledNormal.normSq)
      rw [htriangle, hplane]
      simp
    · have hgram : t.gram ≠ 0 := by
        rw [gram_eq_normSq]
        exact (Vec3.normSq_pos hnormal).ne'
      apply hit?_eq_some_iff_planeScaled hgram hdet
      simpa [Plane.map] using hslope
  refine ⟨hiff, ?_⟩
  simp only [Option.eq_none_iff_forall_ne_some, ne_eq, hiff, not_and]

/-- A ray straight down onto a triangle hits the point that it hits in the plane. -/
theorem hit_iff_plane_hit_down :
    (Triangle.map Exact.value ⟨⟨0, 0, 0⟩, ⟨2, 0, 0⟩, ⟨0, 2, 0⟩⟩ :
        Triangle (Exact (.real 1 (1 / 2) one_half_pos))).hit?
      (Probe.map Exact.value (.ray ⟨⟨1 / 2, 1, 1⟩, ⟨0, 0, -1⟩⟩)).line =
    some (Vec3.map Exact.value ⟨1 / 2, 1, 0⟩) := by
  have hnormal : scaledNormal (⟨⟨0, 0, 0⟩, ⟨2, 0, 0⟩, ⟨0, 2, 0⟩⟩ : Triangle ℝ) = ⟨0, 0, 4⟩ := by
    norm_num [scaledNormal, edge0, edge1, Vec3.cross]
  have hlength : √(⟨0, 0, 4⟩ : Vec3 ℝ).normSq = 4 := by
    rw [Real.sqrt_eq_iff_mul_self_eq] <;> norm_num [Vec3.normSq, Vec3.dot]
  have hplane : (Triangle.map Exact.value ⟨⟨0, 0, 0⟩, ⟨2, 0, 0⟩, ⟨0, 2, 0⟩⟩ :
      Triangle (Exact (.real 1 (1 / 2) one_half_pos))).plane =
        Plane.map Exact.value ⟨⟨0, 0, 1⟩, 0⟩ := by
    have hunit : (⟨0, 0, 4⟩ : Vec3 ℝ) * (1 / 4 : ℝ) = ⟨0, 0, 1⟩ := by norm_num [Vec3.ext_iff]
    rw [plane_map, hnormal, hlength]
    simp [planeScaled, hnormal, -one_div, hunit, Vec3.dot]
  have hdet : (1 / 2 : ℝ) < |determinant ⟨⟨0, 0, 0⟩, ⟨2, 0, 0⟩, ⟨0, 2, 0⟩⟩
      (Probe.ray ⟨⟨1 / 2, 1, 1⟩, ⟨0, 0, -1⟩⟩).direction| := by
    norm_num [determinant, edge0, edge1, Vec3.dot, Vec3.cross, Probe.direction]
  have hslope : (1 / 2 : ℝ) < |(⟨0, 0, 1⟩ : Vec3 ℝ).dot
      (Probe.ray ⟨⟨1 / 2, 1, 1⟩, ⟨0, 0, -1⟩⟩).direction| := by
    norm_num [Vec3.dot, Probe.direction]
  have hpoint : (⟨1 / 2, 1, 0⟩ : Vec3 ℝ) =
      pointAt ⟨⟨0, 0, 0⟩, ⟨2, 0, 0⟩, ⟨0, 2, 0⟩⟩ (1 / 4) (1 / 2) := by
    norm_num [pointAt, edge0, edge1, Vec3.ext_iff]
  refine ((hit_iff_plane_hit _ _ ?_ (.inr ⟨hdet, ?_⟩)).1 _).2 ⟨?_, ?_⟩
  · rw [hnormal]
    norm_num [Vec3.ext_iff]
  · rw [hplane]
    simpa [Plane.map] using hslope
  · rw [hplane, Plane.hit?_eq_some_iff hslope]
    norm_num [Probe.InDomain, Probe.pointAt, Plane.solve, Vec3.dot, Vec3.ext_iff, Probe.origin,
      Probe.direction]
  · rw [hpoint, barycentricAt_pointAt]
    · refine ⟨?_, ?_, ?_⟩ <;> exact Exact.value_le_value.2 (by norm_num)
    · norm_num [gram, edge0, edge1, Vec3.dot]

end Triangle

end HitTest
