import HitTest.Proofs.Exact.SphereGrowth

/-!
# The query for two spheres is exact (`Intersects<Sphere>`)

Two spheres have a point in common if and only if their centers are no farther apart than the two
radii together. The point that divides the way between the centers in the ratio of the radii is one;
and a common point is a detour between the centers, of one radius and the other at most. In rounded
arithmetic the query does not depend on which of the spheres is asked, because a rounded difference
has the same square both ways.
-/

namespace HitTest

open Exact AffineMap

namespace Sphere

variable {ε τ : ℝ} {h : 0 < τ} {s t : Sphere ℝ} {p : Vec3 ℝ}

/-! ## Common points -/

/-- The centers are not farther apart than the radii together reach. -/
theorem Has.dist_center_le (hs : s.Has p) (ht : t.Has p) :
    dist s.center.euclidean t.center.euclidean ≤ s.radius + t.radius := by
  have hway := dist_triangle_right s.center.euclidean t.center.euclidean p.euclidean
  linarith [hs.2, ht.2]

/-- The point that divides the way between the centers in the ratio of the radii. -/
noncomputable def between (s t : Sphere ℝ) : Vec3 ℝ :=
  s.center + (t.center - s.center) * (s.radius / (s.radius + t.radius))

theorem has_between (hs : 0 ≤ s.radius) (ht : 0 ≤ t.radius)
    (hle : dist s.center.euclidean t.center.euclidean ≤ s.radius + t.radius) :
    s.Has (between s t) ∧ t.Has (between s t) := by
  have hreach : 0 ≤ s.radius + t.radius := add_nonneg hs ht
  -- the share of the first radius, which is nothing if both are
  have hshare : s.radius / (s.radius + t.radius) * (s.radius + t.radius) = s.radius :=
    div_mul_cancel_of_imp fun h0 => by linarith
  have h0 : 0 ≤ s.radius / (s.radius + t.radius) := div_nonneg hs hreach
  have h1 : s.radius / (s.radius + t.radius) ≤ 1 :=
    div_le_one_of_le₀ (le_add_of_nonneg_right ht) hreach
  refine ⟨⟨hs, ?_⟩, ht, ?_⟩
  · rw [between, Vec3.euclidean_add_mul, dist_left_lineMap, Real.norm_of_nonneg h0]
    exact (mul_le_mul_of_nonneg_left hle h0).trans_eq hshare
  · rw [between, Vec3.euclidean_add_mul, dist_right_lineMap, Real.norm_of_nonneg (sub_nonneg.2 h1)]
    refine (mul_le_mul_of_nonneg_left hle (sub_nonneg.2 h1)).trans_eq ?_
    rw [sub_mul, hshare, one_mul, add_sub_cancel_left]

/-! ## The query -/

theorem meetsSphere_map_iff :
    (s.map (value : ℝ → Exact (.real ε τ h))).meetsSphere (t.map value) = true ↔
      (0 ≤ s.radius ∧ 0 ≤ t.radius) ∧
        dist s.center.euclidean t.center.euclidean ≤ s.radius + t.radius := by
  rw [meetsSphere, Bool.and_eq_true, Bool.and_eq_true, Bool.not_eq_true', Bool.not_eq_true',
    isEmpty_map_eq_false_iff, isEmpty_map_eq_false_iff, center_map, center_map, radius_map,
    radius_map, Vec3.distSq_map, add_value, mul_value, decide_eq_true_eq, value_le_value]
  refine and_congr_right fun ⟨hs, ht⟩ => ?_
  rw [Vec3.dist_euclidean, Real.sqrt_le_left (add_nonneg hs ht), pow_two]

/-- Two spheres meet if and only if there is a point that is in both. -/
theorem meetsSphere_iff_exists_has :
    (s.map (value : ℝ → Exact (.real ε τ h))).meetsSphere (t.map value) = true ↔
      ∃ p : Vec3 ℝ, s.Has p ∧ t.Has p := by
  rw [meetsSphere_map_iff]
  constructor
  · rintro ⟨⟨hs, ht⟩, hle⟩
    exact ⟨between s t, has_between hs ht hle⟩
  · rintro ⟨p, hs, ht⟩
    exact ⟨⟨hs.1, ht.1⟩, hs.dist_center_le ht⟩

end Sphere

/-! ## Either sphere can be asked -/

section Rounded

variable {f : Format}

theorem Vec3.distSq_comm (a b : Vec3 (Binary f)) : a.distSq b = b.distSq a := by
  simp only [distSq, normSq, dot, sub_x, sub_y, sub_z]
  rw [Binary.sub_mul_sub_comm b.x, Binary.sub_mul_sub_comm b.y, Binary.sub_mul_sub_comm b.z]

theorem Sphere.meetsSphere_comm (a b : Sphere (Binary f)) : a.meetsSphere b = b.meetsSphere a := by
  unfold meetsSphere
  rw [Vec3.distSq_comm, Binary.add_comm a.radius, Bool.and_comm (!a.isEmpty)]

end Rounded

/-- Without rounding two spheres meet if and only if there is a point in both, whatever the radii
are; a sphere with a radius below zero has none (`Intersects<Sphere>` for `Sphere`). In rounded
arithmetic it makes no difference which of the two spheres is asked, also where their numbers are
infinite or not numbers. -/
theorem Sphere.meetsSphere_iff_shared {ε τ : ℝ} {h : 0 < τ} :
    (∀ s t : Sphere ℝ,
      (Shape.sphere (s.map (value : ℝ → Exact (.real ε τ h)))).meets? (.sphere (t.map value)) =
          some true ↔
        ∃ p : Vec3 ℝ, (s.map (value : ℝ → Exact (.real ε τ h))).contains (p.map value) = true ∧
          (t.map (value : ℝ → Exact (.real ε τ h))).contains (p.map value) = true) ∧
    ∀ (f : Format) (a b : Sphere (Binary f)),
      (Shape.sphere a).meets? (.sphere b) = (Shape.sphere b).meets? (.sphere a) := by
  constructor
  · intro s t
    simp only [contains_map_iff_has]
    exact Option.some_inj.trans meetsSphere_iff_exists_has
  · intro f a b
    exact congrArg some (meetsSphere_comm a b)

/-- Two unit spheres touch in one point; a sphere within the other one meets it, and an empty one at
the same place does not. -/
theorem Sphere.meetsSphere_iff_shared_touching :
    (Shape.sphere (Sphere.map value ⟨0, 1⟩ : Sphere (Exact (.real 1 (1 / 2) one_half_pos)))).meets?
        (.sphere (Sphere.map value ⟨⟨2, 0, 0⟩, 1⟩)) = some true ∧
      (Shape.sphere (Sphere.map value ⟨0, 5⟩ : Sphere (Exact (.real 1 (1 / 2) one_half_pos)))).meets?
        (.sphere (Sphere.map value ⟨⟨0, 1, 0⟩, 0⟩)) = some true ∧
      ¬ (Shape.sphere (Sphere.map value ⟨0, 5⟩ : Sphere (Exact (.real 1 (1 / 2) one_half_pos)))).meets?
        (.sphere (Sphere.map value ⟨0, -1⟩)) = some true := by
  have hspec := (meetsSphere_iff_shared (ε := 1) (h := one_half_pos)).1
  refine ⟨(hspec _ _).2 ⟨⟨1, 0, 0⟩, ?_⟩, (hspec _ _).2 ⟨⟨0, 1, 0⟩, ?_⟩, fun hmeets => ?_⟩
  · norm_num [contains_map_iff_has, Has, Vec3.dist_euclidean, Vec3.distSq, Vec3.normSq, Vec3.dot]
  · norm_num [contains_map_iff_has, Has, Vec3.dist_euclidean, Vec3.distSq, Vec3.normSq, Vec3.dot]
  · obtain ⟨p, -, hp⟩ := (hspec _ _).1 hmeets
    rw [contains_map_iff_has] at hp
    linarith [hp.1]

end HitTest
