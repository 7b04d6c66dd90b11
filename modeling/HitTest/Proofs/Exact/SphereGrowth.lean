import HitTest.Proofs.Exact.Bounds
import HitTest.Proofs.Exact.Draw
import Mathlib.Analysis.InnerProductSpace.PiL2
import Mathlib.Analysis.Normed.Affine.AddTorsor

/-!
# A sphere that is grown stays as small as it can (`Sphere::expand_by`)

Without rounding the radius that a sphere is grown to is half the way from the far side of the old
sphere to the new point, and the center is moved to the middle of that way. So the new sphere
touches both ends, no smaller one contains them, and the triangle inequality shows that it contains
the old sphere. Points are taken to the Euclidean space of three dimensions for that, where the
distance is the root of the squared distance.
-/

namespace HitTest

open Exact AffineMap

/-! ## Distances -/

namespace Vec3

/-- A point as one of the Euclidean space. -/
noncomputable def euclidean (a : Vec3 ℝ) : EuclideanSpace ℝ (Fin 3) := !₂[a.x, a.y, a.z]

theorem dist_euclidean (a b : Vec3 ℝ) :
    Dist.dist a.euclidean b.euclidean = √(a.distSq b) := by
  rw [dist_comm, EuclideanSpace.dist_eq, Fin.sum_univ_three]
  congr 1
  simp only [Real.dist_eq, sq_abs, distSq, normSq, dot, sub_x, sub_y, sub_z, ← pow_two]
  rfl

/-- The point at a share of the way from one point to another. -/
theorem euclidean_add_mul (a b : Vec3 ℝ) (t : ℝ) :
    (a + (b - a) * t).euclidean = lineMap a.euclidean b.euclidean t := by
  ext i
  fin_cases i <;> simp [euclidean, lineMap_apply] <;> ring

@[simp] theorem dist_map {ε τ : ℝ} {h : 0 < τ} (a b : Vec3 ℝ) :
    (a.map value).dist (b.map value) =
      (value (Dist.dist a.euclidean b.euclidean) : Exact (.real ε τ h)) := by
  rw [dist, distSq_map, sqrt_value, Params.real_sqrt, dist_euclidean]

end Vec3

namespace Sphere

variable {ε τ : ℝ} {h : 0 < τ} {s u : Sphere ℝ} {p q : Vec3 ℝ}

/-- The points that are at most the radius away from the center. -/
def Has (s : Sphere ℝ) (q : Vec3 ℝ) : Prop :=
  0 ≤ s.radius ∧ dist s.center.euclidean q.euclidean ≤ s.radius

theorem contains_map_iff_has :
    (s.map (value : ℝ → Exact (.real ε τ h))).contains (q.map value) = true ↔ s.Has q := by
  rw [contains, Bool.and_eq_true, Bool.not_eq_true', isEmpty_map_eq_false_iff, center_map,
    radiusSq_map, Vec3.distSq_map, decide_eq_true_eq, value_le_value]
  refine and_congr_right fun hr => ?_
  rw [Vec3.dist_euclidean, Real.sqrt_le_left hr, radiusSq, pow_two]

/-! ## Points that are far apart -/

/-- The points of a sphere are no farther apart than twice the radius. -/
theorem Has.dist_le (hp : s.Has p) (hq : s.Has q) :
    dist p.euclidean q.euclidean ≤ 2 * s.radius := by
  have hway := dist_triangle_left p.euclidean q.euclidean s.center.euclidean
  linarith [hp.2, hq.2]

/-- Some of them are that far apart: the ends of a diameter. -/
theorem exists_diameter (hr : 0 ≤ s.radius) :
    ∃ p q : Vec3 ℝ, s.Has p ∧ s.Has q ∧ dist p.euclidean q.euclidean = 2 * s.radius := by
  -- the line through the center along the first axis
  set e : Vec3 ℝ := s.center + ⟨1, 0, 0⟩ with he
  have hunit : dist s.center.euclidean e.euclidean = 1 := by
    rw [Vec3.dist_euclidean, Real.sqrt_eq_one]
    simp [he, Vec3.distSq, Vec3.normSq, Vec3.dot]
  refine ⟨s.center + (e - s.center) * -s.radius, s.center + (e - s.center) * s.radius,
    ⟨hr, ?_⟩, ⟨hr, ?_⟩, ?_⟩
  · rw [Vec3.euclidean_add_mul, dist_left_lineMap, hunit, mul_one, norm_neg,
      Real.norm_of_nonneg hr]
  · rw [Vec3.euclidean_add_mul, dist_left_lineMap, hunit, mul_one, Real.norm_of_nonneg hr]
  · rw [Vec3.euclidean_add_mul, Vec3.euclidean_add_mul, dist_lineMap_lineMap, hunit, mul_one,
      dist_comm, Real.dist_eq, sub_neg_eq_add, abs_of_nonneg (by linarith), two_mul]

/-- The far side of a sphere is the radius farther away from a point than the center is. -/
theorem exists_far_side (hr : 0 ≤ s.radius)
    (hd : 0 < dist s.center.euclidean p.euclidean) :
    ∃ q : Vec3 ℝ, s.Has q ∧
      dist q.euclidean p.euclidean = s.radius + dist s.center.euclidean p.euclidean := by
  set d := dist s.center.euclidean p.euclidean with hdist
  have hdiv : s.radius / d * d = s.radius := div_mul_cancel₀ _ hd.ne'
  have hnonneg : 0 ≤ s.radius / d := div_nonneg hr hd.le
  refine ⟨s.center + (p - s.center) * (-(s.radius / d)), ⟨hr, ?_⟩, ?_⟩
  · rw [Vec3.euclidean_add_mul, dist_left_lineMap, ← hdist, norm_neg, Real.norm_of_nonneg hnonneg,
      hdiv]
  · rw [Vec3.euclidean_add_mul, dist_lineMap_right, ← hdist, sub_neg_eq_add,
      Real.norm_of_nonneg (by linarith), add_mul, one_mul, hdiv, add_comm]

/-! ## Reaching out to a point -/

/-- The sphere that reaches from the far side of another one to a point. -/
noncomputable def reaching (s : Sphere ℝ) (p : Vec3 ℝ) : Sphere ℝ :=
  let d := dist s.center.euclidean p.euclidean
  ⟨s.center + (p - s.center) * (((s.radius + d) / 2 - s.radius) / d), (s.radius + d) / 2⟩

section Reaching

variable (hr : 0 ≤ s.radius) (hlt : s.radius < dist s.center.euclidean p.euclidean)

include hr hlt

/-- The center is moved by as much as the radius grows, and is the radius away from the point. -/
theorem dist_reaching :
    dist (s.reaching p).center.euclidean s.center.euclidean = (s.reaching p).radius - s.radius ∧
      dist (s.reaching p).center.euclidean p.euclidean = (s.reaching p).radius := by
  simp only [reaching, Vec3.euclidean_add_mul]
  rw [dist_lineMap_left, dist_lineMap_right]
  generalize dist s.center.euclidean p.euclidean = d at hlt ⊢
  have hd : 0 < d := hr.trans_lt hlt
  have hshare : ((s.radius + d) / 2 - s.radius) / d * d = (s.radius + d) / 2 - s.radius :=
    div_mul_cancel₀ _ hd.ne'
  have hnonneg : 0 ≤ ((s.radius + d) / 2 - s.radius) / d := div_nonneg (by linarith) hd.le
  have hle : ((s.radius + d) / 2 - s.radius) / d ≤ 1 := by
    rw [div_le_one hd]
    linarith
  rw [Real.norm_of_nonneg hnonneg, Real.norm_of_nonneg (sub_nonneg.2 hle), sub_mul, one_mul, hshare]
  exact ⟨rfl, by ring⟩

omit hr in
theorem radius_le_reaching : s.radius ≤ (s.reaching p).radius := by
  simp only [reaching]
  linarith

theorem has_reaching : (s.reaching p).Has p :=
  ⟨hr.trans (radius_le_reaching hlt), (dist_reaching hr hlt).2.le⟩

theorem Has.reaching (hq : s.Has q) : (s.reaching p).Has q := by
  refine ⟨hr.trans (radius_le_reaching hlt), ?_⟩
  have hway := dist_triangle (s.reaching p).center.euclidean s.center.euclidean q.euclidean
  rw [(dist_reaching hr hlt).1] at hway
  linarith [hq.2]

/-- A sphere that has the point and the far side of the old sphere has no smaller radius. -/
theorem radius_reaching_le (hp : u.Has p) (hold : ∀ q, s.Has q → u.Has q) :
    (s.reaching p).radius ≤ u.radius := by
  obtain ⟨q, hq, hdist⟩ := exists_far_side hr (hr.trans_lt hlt)
  have hle := (hold q hq).dist_le hp
  rw [hdist] at hle
  simp only [Sphere.reaching]
  linarith

end Reaching

/-! ## Growing by a point -/

theorem expandBy_map_of_empty (hr : s.radius < 0) (p : Vec3 ℝ) :
    (s.map (value : ℝ → Exact (.real ε τ h))).expandBy (p.map value) =
      (⟨p, 0⟩ : Sphere ℝ).map value := by
  rw [expandBy, isEmpty, radius_map, zero_eq, decide_eq_true (value_lt_value.2 hr), if_pos rfl]
  rfl

theorem expandBy_map_of_has (hp : s.Has p) :
    (s.map (value : ℝ → Exact (.real ε τ h))).expandBy (p.map value) = s.map value := by
  rw [expandBy, isEmpty_map_eq_false_iff.2 hp.1, if_neg Bool.false_ne_true, center_map,
    Vec3.dist_map, radius_map, if_pos (value_le_value.2 hp.2)]

theorem expandBy_map_of_lt (hr : 0 ≤ s.radius)
    (hlt : s.radius < dist s.center.euclidean p.euclidean) :
    (s.map (value : ℝ → Exact (.real ε τ h))).expandBy (p.map value) =
      (s.reaching p).map value := by
  rw [expandBy, isEmpty_map_eq_false_iff.2 hr, if_neg Bool.false_ne_true, center_map,
    Vec3.dist_map, radius_map, if_neg (mt value_le_value.1 hlt.not_ge)]
  simp [reaching, map]

/-- What one growth of a sphere by a point comes to. -/
structure IsLeastGrowth (s : Sphere ℝ) (p : Vec3 ℝ) (t : Sphere ℝ) : Prop where
  has_point : t.Has p
  keeps : ∀ q, s.Has q → t.Has q
  same : s.Has p → t = s
  least : ∀ u : Sphere ℝ, u.Has p → (∀ q, s.Has q → u.Has q) → t.radius ≤ u.radius

theorem exists_isLeastGrowth (s : Sphere ℝ) (p : Vec3 ℝ) : ∃ t : Sphere ℝ,
    (s.map (value : ℝ → Exact (.real ε τ h))).expandBy (p.map value) = t.map value ∧
      IsLeastGrowth s p t := by
  rcases lt_or_ge s.radius 0 with hr | hr
  · -- nothing is in the old sphere
    have hnone : ∀ q, ¬ s.Has q := fun q hq => hr.not_ge hq.1
    refine ⟨⟨p, 0⟩, expandBy_map_of_empty hr p, ⟨le_rfl, by simp⟩, ?_, ?_, fun u hu _ => hu.1⟩
    · exact fun q hq => absurd hq (hnone q)
    · exact fun hp => absurd hp (hnone p)
  · rcases le_or_gt (dist s.center.euclidean p.euclidean) s.radius with hle | hlt
    · have hp : s.Has p := ⟨hr, hle⟩
      refine ⟨s, expandBy_map_of_has hp, hp, fun _ hq => hq, fun _ => rfl, fun u _ hold => ?_⟩
      obtain ⟨a, b, ha, hb, hab⟩ := exists_diameter hr
      have hdist := (hold a ha).dist_le (hold b hb)
      linarith
    · refine ⟨s.reaching p, expandBy_map_of_lt hr hlt, has_reaching hr hlt,
        fun q hq => hq.reaching hr hlt, fun hp => absurd hp.2 hlt.not_ge,
        fun u hp hold => radius_reaching_le hr hlt hp hold⟩

/-! ## Growing by a list of points -/

/-- A sphere that is grown by points has those and all points that it had. -/
theorem exists_foldl_expandBy (s : Sphere ℝ) (ps : List (Vec3 ℝ)) : ∃ t : Sphere ℝ,
    (ps.map (Vec3.map value)).foldl expandBy (s.map (value : ℝ → Exact (.real ε τ h))) =
      t.map value ∧ (∀ q, s.Has q → t.Has q) ∧ ∀ p ∈ ps, t.Has p := by
  induction ps generalizing s with
  | nil => exact ⟨s, rfl, fun _ hq => hq, by simp⟩
  | cons p ps ih =>
    obtain ⟨s', hs', hgrowth⟩ := exists_isLeastGrowth (ε := ε) (h := h) s p
    obtain ⟨t, ht, hkeeps, hall⟩ := ih s'
    refine ⟨t, ?_, fun q hq => hkeeps q (hgrowth.keeps q hq), ?_⟩
    · rw [List.map_cons, List.foldl_cons, hs', ht]
    · rintro q hq
      rcases List.mem_cons.1 hq with rfl | hq
      · exact hkeeps _ hgrowth.has_point
      · exact hall q hq

theorem empty_eq_map :
    (empty : Sphere (Exact (.real ε τ h))) = (⟨0, -1⟩ : Sphere ℝ).map value := by
  rfl

/-- Growing by a point gives the smallest sphere with the point and all of the old sphere, which is
the old sphere if that contains the point (`Sphere::expand_by`). Its radius can be anything, and is
below zero for an empty sphere. So what the empty sphere is grown by, one point after the other,
stays in it. -/
theorem expandBy_isLeast :
    (∀ (s : Sphere ℝ) (p : Vec3 ℝ), ∃ t : Sphere ℝ,
      (s.map (value : ℝ → Exact (.real ε τ h))).expandBy (p.map value) = t.map value ∧
      (t.map (value : ℝ → Exact (.real ε τ h))).contains (p.map value) = true ∧
      (∀ q : Vec3 ℝ, (s.map (value : ℝ → Exact (.real ε τ h))).contains (q.map value) = true →
        (t.map (value : ℝ → Exact (.real ε τ h))).contains (q.map value) = true) ∧
      ((s.map (value : ℝ → Exact (.real ε τ h))).contains (p.map value) = true → t = s) ∧
      ∀ u : Sphere ℝ, (u.map (value : ℝ → Exact (.real ε τ h))).contains (p.map value) = true →
        (∀ q : Vec3 ℝ, (s.map (value : ℝ → Exact (.real ε τ h))).contains (q.map value) = true →
          (u.map (value : ℝ → Exact (.real ε τ h))).contains (q.map value) = true) →
        t.radius ≤ u.radius) ∧
    ∀ (ps : List (Vec3 ℝ)), ∀ p ∈ ps,
      ((ps.map (Vec3.map value)).foldl expandBy
        (empty : Sphere (Exact (.real ε τ h)))).contains (p.map value) = true := by
  constructor
  · intro s p
    obtain ⟨t, ht, hgrowth⟩ := exists_isLeastGrowth (ε := ε) (h := h) s p
    simp only [contains_map_iff_has]
    exact ⟨t, ht, hgrowth.has_point, hgrowth.keeps, hgrowth.same, hgrowth.least⟩
  · intro ps p hp
    obtain ⟨t, ht, -, hall⟩ := exists_foldl_expandBy (ε := ε) (h := h) ⟨0, -1⟩ ps
    rw [empty_eq_map, ht, contains_map_iff_has]
    exact hall p hp

/-- The unit sphere stays as it is when it is grown by one of its points, and the empty sphere keeps
the first of two points. -/
theorem expandBy_isLeast_unit :
    (Sphere.map value ⟨0, 1⟩ : Sphere (Exact (.real 1 (1 / 2) one_half_pos))).expandBy
        (Vec3.map value ⟨1, 0, 0⟩) = Sphere.map value ⟨0, 1⟩ ∧
      ([Vec3.map value ⟨1, 0, 0⟩, Vec3.map value ⟨0, 2, 0⟩].foldl expandBy
        (empty : Sphere (Exact (.real 1 (1 / 2) one_half_pos)))).contains
          (Vec3.map value ⟨1, 0, 0⟩) = true := by
  have hspec := expandBy_isLeast (ε := 1) (h := one_half_pos)
  constructor
  · obtain ⟨t, ht, -, -, hsame, -⟩ := hspec.1 ⟨0, 1⟩ ⟨1, 0, 0⟩
    rw [ht, hsame]
    simp [contains, isEmpty, map, Vec3.map, Vec3.distSq, Vec3.normSq, Vec3.dot, radiusSq]
  · exact hspec.2 [⟨1, 0, 0⟩, ⟨0, 2, 0⟩] ⟨1, 0, 0⟩ (by simp)

end Sphere

end HitTest
