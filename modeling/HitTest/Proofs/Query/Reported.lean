import HitTest.Proofs.Binary.Magnitude
import HitTest.Proofs.Query.Surface

/-!
# Points that are reported

The tests of a crossing reject what is out of range, and what is not a number is in no way out of
range. So a line is taken to hit a triangle if the coordinates along the edges overflow in the
course of the computation, and a ray is taken to cross a plane at an infinite parameter. It is said
here exactly when the point that is reported for a hit has components that are not numbers, and how
large coordinates can be without that.
-/

namespace HitTest

open Binary hiding min max

variable {f : Format}

/-- No component is what is not a number. -/
def Vec3.IsPoint (p : Vec3 (Binary f)) : Prop := p.All fun c => c.isNumber = true

instance (p : Vec3 (Binary f)) : Decidable p.IsPoint :=
  inferInstanceAs (Decidable (p.All fun c => c.isNumber = true))

theorem Line.nonneg_of_containsParam {l : Line (Binary f)} {s : Binary f}
    (h : l.containsParam s = true) : 0 ≤ s ∧ s ≤ l.maxParam := by
  rwa [containsParam, Bool.and_eq_true, decide_eq_true_eq, decide_eq_true_eq] at h

/-! ## Triangles -/

namespace Triangle

variable {t : Triangle (Binary f)} {l : Line (Binary f)} {o d : Vec3 (Binary f)} {u v s : Binary f}

/-- The coordinates are on the triangle. -/
structure InRange (u v : Binary f) : Prop where
  u_nonneg : 0 ≤ u
  v_nonneg : 0 ≤ v
  sum_le : u + v ≤ 1

/-- Coordinates in range are between zero and one. -/
theorem InRange.le_one (h : InRange u v) :
    (u.IsFinite ∧ |u.value| ≤ 1) ∧ v.IsFinite ∧ |v.value| ≤ 1 := by
  obtain ⟨hu, hv, hsum⟩ := h
  have hfin := isFinite_of_add (isFinite_one.of_nonneg_of_le (Binary.add_nonneg hu hv) hsum)
  have hu0 := (nonneg_iff.1 hu).2
  have hv0 := (nonneg_iff.1 hv).2
  have hround := rounds_add hfin.1 hfin.2
  have hone : (u + v).value ≤ 1 := by
    have := value_le_value hsum
    rwa [value_one] at this
  rw [abs_of_nonneg hu0, abs_of_nonneg hv0]
  exact ⟨⟨hfin.1, (hround.le_value hfin.1.1 (by linarith)).trans hone⟩,
    hfin.2, (hround.le_value hfin.2.1 (by linarith)).trans hone⟩

/-- Coordinates that are not rejected are in range if they are numbers. -/
theorem Passes.inRange_iff (h : t.Passes o d u v s) :
    InRange u v ↔ u.isNumber = true ∧ v.isNumber = true := by
  constructor
  · exact fun hr => ⟨isNumber_right hr.u_nonneg, isNumber_right hr.v_nonneg⟩
  · rintro ⟨hu, hv⟩
    obtain ⟨hu0, hu1⟩ := not_or.1 h.u_range
    obtain ⟨hv0, hsum⟩ := not_or.1 h.v_range
    rw [Binary.not_lt hu isNumber_zero] at hu0
    rw [Binary.not_lt isFinite_one.1 hu] at hu1
    have hufin := isFinite_one.of_nonneg_of_le hu0 hu1
    refine ⟨hu0, (Binary.not_lt hv isNumber_zero).1 hv0, ?_⟩
    exact (Binary.not_lt isFinite_one.1 (hufin.isNumber_add hv)).1 hsum

/-- A determinant is finite only if all that it is made of is. -/
theorem isFinite_of_determinant (h : (t.determinant d).IsFinite) :
    t.edge0.All IsFinite ∧ d.All IsFinite ∧ t.edge1.All IsFinite := by
  obtain ⟨h0, hcross⟩ := Vec3.isFinite_of_dot h
  exact ⟨h0, Vec3.isFinite_of_cross hcross⟩

/-- If the determinant overflows, coordinates that are numbers are zero. -/
theorem value_eq_zero_of_overflow {det x c : Binary f} (hdet : ¬ det.IsFinite)
    (hc : 1 / det * x = c) (hn : c.isNumber = true) : c.value = 0 := by
  rcases reciprocal_of_not_isFinite hdet with e | ⟨b, e⟩
  · rw [e] at hc
    rw [← hc] at hn
    cases (isNumber_of_mul hn).1
  · rw [e, Binary.mul_comm] at hc
    rcases mul_signedZero x b with hnan | hzero
    · rw [hnan] at hc
      rw [← hc] at hn
      cases hn
    · rwa [hc] at hzero

/-- An edge with a coordinate in range leads to a number from every finite one. -/
theorem isNumber_along {a e g c w : Binary f} (ha : a.IsFinite) (he : e.IsFinite) (hg : g.IsFinite)
    (hc : c.IsFinite ∧ |c.value| ≤ 1) (hw : w.IsFinite ∧ |w.value| ≤ 1) :
    (a + e * c + g * w).isNumber = true := by
  have hfin : ∀ {e c : Binary f}, e.IsFinite → c.IsFinite ∧ |c.value| ≤ 1 → (e * c).IsFinite := by
    intro e c he hc
    have habs : e.abs.IsFinite := by
      rw [IsFinite, isNumber_abs, place_abs, abs_abs]
      exact he
    refine (rounds_mul he hc.1).isFinite_of_abs_le habs ?_
    rw [value_abs, abs_mul]
    exact mul_le_of_le_one_right (abs_nonneg _) hc.2
  rw [Binary.add_comm]
  exact (hfin hg hw).isNumber_add (ha.isNumber_add (hfin he hc).1)

/-- The point of a hit is one if and only if the coordinates are numbers and the edges do not
overflow. -/
theorem isPoint_pointAt_iff (h0 : t.v0.All IsFinite) (h : t.Passes o d u v s) :
    (t.pointAt u v).IsPoint ↔ (u.isNumber = true ∧ v.isNumber = true) ∧
      t.edge0.All IsFinite ∧ t.edge1.All IsFinite := by
  constructor
  · intro hp
    have hterms : ∀ {a e g : Binary f}, (a + e * u + g * v).isNumber = true →
        (e * u).isNumber = true ∧ (g * v).isNumber = true := by
      intro a e g hn
      obtain ⟨hl, hr⟩ := isNumber_of_add hn
      exact ⟨(isNumber_of_add hl).2, hr⟩
    obtain ⟨hx0, hx1⟩ := hterms hp.1
    obtain ⟨hy0, hy1⟩ := hterms hp.2.1
    obtain ⟨hz0, hz1⟩ := hterms hp.2.2
    have hu := (isNumber_of_mul hx0).2
    have hv := (isNumber_of_mul hx1).2
    refine ⟨⟨hu, hv⟩, ?_⟩
    by_cases hdet : (t.determinant d).IsFinite
    · obtain ⟨he0, -, he1⟩ := isFinite_of_determinant hdet
      exact ⟨he0, he1⟩
    · have hu0 := value_eq_zero_of_overflow hdet h.u_eq hu
      have hv0 := value_eq_zero_of_overflow hdet h.v_eq hv
      exact ⟨⟨isFinite_of_mul_of_value_eq_zero hx0 hu0, isFinite_of_mul_of_value_eq_zero hy0 hu0,
        isFinite_of_mul_of_value_eq_zero hz0 hu0⟩, isFinite_of_mul_of_value_eq_zero hx1 hv0,
        isFinite_of_mul_of_value_eq_zero hy1 hv0, isFinite_of_mul_of_value_eq_zero hz1 hv0⟩
  · rintro ⟨hn, he0, he1⟩
    obtain ⟨hu, hv⟩ := (h.inRange_iff.2 hn).le_one
    exact ⟨isNumber_along h0.1 he0.1 he1.1 hu hv, isNumber_along h0.2.1 he0.2.1 he1.2.1 hu hv,
      isNumber_along h0.2.2 he0.2.2 he1.2.2 hu hv⟩

/-- Edges are twice as large as coordinates at most. -/
theorem within_edges {k : Nat} (h0 : t.v0.All (Within k)) (h1 : t.v1.All (Within k))
    (h2 : t.v2.All (Within k)) (hk : k + 1 < f.exponentBound) :
    t.edge0.All (Within (k + 1)) ∧ t.edge1.All (Within (k + 1)) :=
  ⟨Vec3.within_sub h1 h0 hk, Vec3.within_sub h2 h0 hk⟩

/-- With coordinates whose triple products do not overflow, the coordinates of a hit are in range
and its point is one. -/
theorem Passes.inRange_of_within {k : Nat} (hk : 3 * k + 6 < f.exponentBound)
    (h0 : t.v0.All (Within k)) (h1 : t.v1.All (Within k)) (h2 : t.v2.All (Within k))
    (ho : o.All (Within k)) (hd : d.All (Within (k + 1))) (h : t.Passes o d u v s) :
    InRange u v ∧ (t.pointAt u v).IsPoint := by
  obtain ⟨he0, he1⟩ := within_edges h0 h1 h2 (by omega)
  have hs := Vec3.within_sub ho h0 (by omega : k + 1 < f.exponentBound)
  have hcross := Vec3.within_cross hd he1 (by omega)
  have hq := Vec3.within_cross hs he0 (by omega)
  have hdet : (t.determinant d).IsFinite :=
    (Vec3.within_dot he0 hcross (by omega)).isFinite (by omega)
  have hinv := (reciprocal_ne_zero hdet h.not_parallel).1
  have hnumber : ∀ {x c : Binary f}, x.IsFinite → 1 / t.determinant d * x = c →
      c.isNumber = true := by
    rintro x c hx rfl
    exact (rounds_mul hinv hx).isNumber
  have hu := hnumber ((Vec3.within_dot hs hcross (by omega)).isFinite (by omega)) h.u_eq
  have hv := hnumber ((Vec3.within_dot hd hq (by omega)).isFinite (by omega)) h.v_eq
  have hfinite : k < f.exponentBound := by omega
  have hedge : k + 1 < f.exponentBound := by omega
  refine ⟨h.inRange_iff.2 ⟨hu, hv⟩, (isPoint_pointAt_iff (h0.mono fun _ hx => hx.isFinite hfinite)
    h).2 ⟨⟨hu, hv⟩, he0.mono fun _ hx => hx.isFinite hedge, he1.mono fun _ hx => hx.isFinite hedge⟩⟩

end Triangle

/-! ## Planes -/

namespace Plane

variable {pl : Plane (Binary f)} {l : Line (Binary f)} {s : Binary f}

/-- The point of a crossing is one if and only if the direction does not overflow, and neither does
the parameter unless all components of the direction grow with it. -/
theorem isPoint_pointAt_iff (h0 : l.origin.All IsFinite) (h : pl.crossing? l = some s) :
    (l.pointAt s).IsPoint ↔ l.direction.All IsFinite ∧
      (s.IsFinite ∨ l.direction.All fun c => c.value ≠ 0) := by
  obtain ⟨hpass, hs⟩ := crossing?_eq_some_iff.1 h
  have hpos := (Line.nonneg_of_containsParam hs).1
  have hn := isNumber_right hpos
  constructor
  · rintro ⟨hx, hy, hz⟩
    have hxs := (isNumber_of_add hx).2
    have hys := (isNumber_of_add hy).2
    have hzs := (isNumber_of_add hz).2
    constructor
    · by_cases hslope : (pl.normal.dot l.direction).IsFinite
      · exact (Vec3.isFinite_of_dot hslope).2
      · -- the quotient is zero, and a multiple by zero has to be one of something finite
        have hzero : s.value = 0 := by
          rw [← hpass.s_eq] at hn ⊢
          exact value_div_eq_zero hn hslope
        exact ⟨isFinite_of_mul_of_value_eq_zero hxs hzero,
          isFinite_of_mul_of_value_eq_zero hys hzero, isFinite_of_mul_of_value_eq_zero hzs hzero⟩
    · by_cases hfin : s.IsFinite
      · exact .inl hfin
      · have hne : ∀ {c : Binary f}, (c * s).isNumber = true → c.value ≠ 0 := by
          intro c hc h0
          rw [Binary.mul_comm] at hc
          exact hfin (isFinite_of_mul_of_value_eq_zero hc h0)
        exact .inr ⟨hne hxs, hne hys, hne hzs⟩
  · rintro ⟨hd, hor⟩
    have hterm : ∀ {a c : Binary f}, a.IsFinite → c.IsFinite → s.IsFinite ∨ c.value ≠ 0 →
        (a + c * s).isNumber = true := by
      intro a c ha hc hor
      refine ha.isNumber_add ?_
      rcases hor with hfin | hc0
      · exact (rounds_mul hc hfin).isNumber
      · rw [Binary.mul_comm]
        exact (mul_signs hn hc hc0).1
    refine ⟨hterm h0.1 hd.1 ?_, hterm h0.2.1 hd.2.1 ?_, hterm h0.2.2 hd.2.2 ?_⟩
    · exact hor.imp_right fun h => h.1
    · exact hor.imp_right fun h => h.2.1
    · exact hor.imp_right fun h => h.2.2

/-- The parameter of a line that ends does not overflow. -/
theorem isFinite_of_crossing? (hl : l.maxParam.IsFinite) (h : pl.crossing? l = some s) :
    s.IsFinite := by
  obtain ⟨h0, hmax⟩ := Line.nonneg_of_containsParam (crossing?_eq_some_iff.1 h).2
  exact hl.of_nonneg_of_le h0 hmax

end Plane

/-! ## Reported points -/

/-- What is known of a reported point, for any line that starts at a finite point
(`intersect_line_with_tri`, `intersect_line_with_plane`). The parameter is on the part of the line
that is present. For a triangle, the coordinates along the edges are in range if and only if they
are numbers, and the point is one if and only if they are and the edges do not overflow. For a
plane, the point is one if and only if the direction of the line does not overflow and neither does
the parameter, unless no component of the direction is zero. So it is for every segment whose
direction is finite. All is well with triangles, rays and segments whose triple products do not
overflow. -/
theorem reported_point (f : Format) :
    (∀ (t : Triangle (Binary f)) (l : Line (Binary f)) (u v s : Binary f), t.v0.All IsFinite →
      t.crossing l = .hit u v s →
        (0 ≤ s ∧ s ≤ l.maxParam) ∧
        ((0 ≤ u ∧ 0 ≤ v ∧ u + v ≤ 1) ↔ u.isNumber = true ∧ v.isNumber = true) ∧
        ((t.pointAt u v).IsPoint ↔ (u.isNumber = true ∧ v.isNumber = true) ∧
          t.edge0.All IsFinite ∧ t.edge1.All IsFinite)) ∧
    (∀ (pl : Plane (Binary f)) (l : Line (Binary f)) (s : Binary f), l.origin.All IsFinite →
      pl.crossing? l = some s →
        (0 ≤ s ∧ s ≤ l.maxParam) ∧
        ((l.pointAt s).IsPoint ↔ l.direction.All IsFinite ∧
          (s.IsFinite ∨ l.direction.All fun c => c.value ≠ 0)) ∧
        (l.maxParam.IsFinite → l.direction.All IsFinite → (l.pointAt s).IsPoint)) ∧
    ∀ k : Nat, 3 * k + 6 < f.exponentBound → ∀ (t : Triangle (Binary f)) (l : Line (Binary f))
      (p : Vec3 (Binary f)), t.v0.All (Within k) → t.v1.All (Within k) → t.v2.All (Within k) →
      l.origin.All (Within k) → l.direction.All (Within (k + 1)) → t.hit? l = some p →
        p.IsPoint ∧ ∃ u v s, t.crossing l = .hit u v s ∧ 0 ≤ u ∧ 0 ≤ v ∧ u + v ≤ 1 := by
  refine ⟨fun t l u v s h0 h => ?_, fun pl l s h0 h => ?_, fun k hk t l p h0 h1 h2 ho hd hp => ?_⟩
  · obtain ⟨hpass, hs⟩ := Triangle.crossing_eq_hit_iff.1 h
    refine ⟨Line.nonneg_of_containsParam hs, ?_, Triangle.isPoint_pointAt_iff h0 hpass⟩
    rw [← hpass.inRange_iff]
    exact ⟨fun ⟨hu, hv, hsum⟩ => ⟨hu, hv, hsum⟩, fun hr => ⟨hr.u_nonneg, hr.v_nonneg, hr.sum_le⟩⟩
  · have hiff := Plane.isPoint_pointAt_iff h0 h
    exact ⟨Line.nonneg_of_containsParam (Plane.crossing?_eq_some_iff.1 h).2, hiff,
      fun hl hd => hiff.2 ⟨hd, .inl (Plane.isFinite_of_crossing? hl h)⟩⟩
  · obtain ⟨u, v, s, h, rfl⟩ := Triangle.hit?_eq_some_iff_crossing.1 hp
    obtain ⟨hr, hpoint⟩ :=
      (Triangle.crossing_eq_hit_iff.1 h).1.inRange_of_within hk h0 h1 h2 ho hd
    exact ⟨hpoint, u, v, s, h, hr.u_nonneg, hr.v_nonneg, hr.sum_le⟩

/-- A ray straight down past a triangle, all of finite components, is reported to hit it in a point
that is none: the determinant overflows, and its reciprocal is zero. A ray that is all but parallel
to a plane is reported to cross it where the parameter overflows. -/
theorem reported_point_overflow :
    (∃ (t : Triangle Binary32) (r : Ray Binary32),
      (t.v0.All IsFinite ∧ t.v1.All IsFinite ∧ t.v2.All IsFinite) ∧
      (r.origin.All IsFinite ∧ r.direction.All IsFinite) ∧
      t.crossing r.line = .hit nan nan 0 ∧ t.hit? r.line = some ⟨nan, nan, nan⟩ ∧
      ¬ (0 ≤ (nan : Binary32))) ∧
    ∃ (pl : Plane Binary32) (r : Ray Binary32),
      (pl.normal.All IsFinite ∧ pl.offset.IsFinite) ∧
      (r.origin.All IsFinite ∧ r.direction.All IsFinite) ∧
      pl.hit? r.line = some ⟨infinity, nan, nan⟩ := by
  constructor
  · exact ⟨⟨0, ⟨ofNat (2 ^ 33), 0, 0⟩, ⟨0, ofNat (2 ^ 33), 0⟩⟩,
      ⟨⟨-ofNat (2 ^ 33), -ofNat (2 ^ 33), ofNat (2 ^ 33)⟩, ⟨0, 0, -ofNat (2 ^ 83)⟩⟩,
      by decide +kernel⟩
  · exact ⟨⟨⟨1, 0, 0⟩, 0⟩, ⟨⟨-ofNat 1000, 0, 0⟩, ⟨minPositive + minPositive, 0, 0⟩⟩,
      by decide +kernel⟩

/-- A ray down on a triangle is within the bounds, and hits in a point. A segment through a plane
crosses it in a point. -/
theorem reported_point_down :
    (∃ p : Vec3 Binary32, (⟨0, ⟨1, 0, 0⟩, ⟨0, 1, 0⟩⟩ : Triangle Binary32).hit?
      (Ray.mk ⟨0, 0, 1⟩ ⟨0, 0, -1⟩).line = some p ∧ p.IsPoint) ∧
    ∃ s : Binary32, (⟨⟨0, 0, 1⟩, 0⟩ : Plane Binary32).crossing?
        (Segment.mk ⟨0, 0, 1⟩ ⟨0, 0, -1⟩).line = some s ∧
      ((Segment.mk ⟨0, 0, 1⟩ ⟨0, 0, -1⟩ : Segment Binary32).line.pointAt s).IsPoint := by
  obtain ⟨-, hplane, hsmall⟩ := reported_point .single
  have hpoint : ∀ {c : Binary32}, Within 0 c → (⟨0, 0, c⟩ : Vec3 Binary32).All (Within 0) :=
    fun hc => ⟨.zero, .zero, hc⟩
  constructor
  · have hhit : (⟨0, ⟨1, 0, 0⟩, ⟨0, 1, 0⟩⟩ : Triangle Binary32).hit?
        (Ray.mk ⟨0, 0, 1⟩ ⟨0, 0, -1⟩).line = some 0 := by decide +kernel
    exact ⟨0, hhit, (hsmall 0 (by decide) _ _ _ (hpoint .zero) ⟨.one, .zero, .zero⟩
      ⟨.zero, .one, .zero⟩ (hpoint .one) ((hpoint Within.one.neg).within_mono (by decide)) hhit).1⟩
  · have hcross : (⟨⟨0, 0, 1⟩, 0⟩ : Plane Binary32).crossing?
        (Segment.mk ⟨0, 0, 1⟩ ⟨0, 0, -1⟩).line = some Scalar.half := by decide +kernel
    exact ⟨_, hcross, (hplane _ _ _ (by decide +kernel) hcross).2.2 isFinite_one (by decide +kernel)⟩

end HitTest
