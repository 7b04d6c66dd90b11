import HitTest.Proofs.Exact.Bounds
import HitTest.Proofs.Exact.Sphere
import HitTest.Proofs.Exact.Triangle

/-!
# Culling by bounds

A scene may be looked through by boxes: what is not met by the box around some shapes need not be
asked for by any of them. That is sound since a query that succeeds does so because of a point that
both shapes share. The bounding box of a shape covers that point, so does every union it is part of,
and a box that covers a point of a line or of another box meets it.
-/

namespace HitTest

/-- A box by which a shape may be culled: its bounding box, or the union of the bounding boxes of
shapes of which it is one. -/
def Shape.CulledBy {S : Type} [Scalar S] (a : Shape S) (b : Box S) : Prop :=
  a.bounds? = some b ∨ ∃ shapes : List (Shape S), a ∈ shapes ∧
    b = Box.union (shapes.filterMap Shape.bounds?)

variable {K : Type} [Field K] [LinearOrder K] {P : Exact.Params K} {q : Vec3 K}

/-- What is covered by its bounding box is covered by every box by which a shape may be culled. -/
theorem Shape.CulledBy.covers {a : Shape (Exact P)} {b c : Box (Exact P)} (h : a.CulledBy b)
    (hc : a.bounds? = some c) (hq : c.Covers q) : b.Covers q := by
  rcases h with hb | ⟨shapes, ha, rfl⟩
  · obtain rfl : b = c := Option.some.inj (hb.symm.trans hc)
    exact hq
  · exact Box.covers_union (List.mem_filterMap.2 ⟨a, ha, hc⟩) hq

/-! ## Shared points -/

variable [IsStrictOrderedRing K]

/-- The point that a triangle is hit in is one of the line and one of the triangle. -/
theorem Triangle.exists_of_hit? {t : Triangle K} {p : Probe K} {x : Vec3 (Exact P)}
    (h : (t.map Exact.value).hit? (p.map Exact.value).line = some x) :
    ∃ u v s : K, (0 ≤ u ∧ 0 ≤ v ∧ u + v ≤ 1) ∧ p.InDomain s ∧ p.pointAt s = t.pointAt u v ∧
      x = (t.pointAt u v).map Exact.value := by
  by_cases hle : |t.determinant p.direction| ≤ P.minPositive
  · rw [hit?, crossing_of_le hle, Crossing.point?] at h
    cases h
  · have hlt := not_le.1 hle
    have hdet : t.determinant p.direction ≠ 0 := abs_pos.1 (P.minPositive_pos.trans hlt)
    obtain ⟨⟨hu, hv, huv, hs⟩, hx⟩ := (hit?_eq_some_iff hlt x).1 h
    exact ⟨_, _, _, ⟨hu, hv, huv⟩, hs, (pointAt_eq_iff hdet _).2 rfl, hx⟩

namespace Vec3

omit [LinearOrder K] [IsStrictOrderedRing K] in
/-- Squared distances along the way from one point to another. -/
theorem distSq_add_mul (a b : Vec3 K) (t : K) :
    a.distSq (a + (b - a) * t) = t * t * a.distSq b ∧
      b.distSq (a + (b - a) * t) = (1 - t) * (1 - t) * a.distSq b := by
  simp only [distSq, normSq, dot, sub_x, sub_y, sub_z, add_x, add_y, add_z, mul_x, mul_y, mul_z]
  constructor <;> ring

omit [IsStrictOrderedRing K] in
/-- A point at a finite squared distance is one of the field, since an infinite coordinate makes the
squared distance infinite. -/
theorem exists_eq_map_of_distSq_le {a : Vec3 K} {n : Vec3 (Exact P)} {r : K}
    (h : (a.map Exact.value).distSq n ≤ Exact.value r) : ∃ q : Vec3 K, n = q.map Exact.value := by
  have hsq : ∀ (o : K) (x : Exact P), (∃ y, x = .value y) ∨
      (x - .value o) * (x - .value o) = .top := by
    intro o x
    cases x with
    | bottom => exact .inr rfl
    | value y => exact .inl ⟨y, rfl⟩
    | top => exact .inr rfl
  simp only [distSq, normSq, dot, sub_x, sub_y, sub_z, map_x, map_y, map_z] at h
  obtain ⟨nx, ny, nz⟩ := n
  rcases hsq a.x nx with ⟨x, rfl⟩ | hx <;> rcases hsq a.y ny with ⟨y, rfl⟩ | hy <;>
    rcases hsq a.z nz with ⟨z, rfl⟩ | hz
  case inl.inl.inl => exact ⟨⟨x, y, z⟩, rfl⟩
  all_goals
    exfalso
    revert h
    simp [*]

end Vec3

namespace Sphere

variable {s t : Sphere K}

/-- Spheres that meet share the point that divides the way between the centers as the radii do. -/
theorem exists_of_meetsSphere
    (h : (s.map (Exact.value : K → Exact P)).meetsSphere (t.map Exact.value) = true) :
    (0 ≤ s.radius ∧ 0 ≤ t.radius) ∧
      ∃ q : Vec3 K, s.center.distSq q ≤ s.radiusSq ∧ t.center.distSq q ≤ t.radiusSq := by
  simp only [meetsSphere, Bool.and_eq_true, Bool.not_eq_true', decide_eq_true_eq,
    isEmpty_map_eq_false_iff, center_map, radius_map, Vec3.distSq_map, Exact.add_value,
    Exact.mul_value, Exact.value_le_value] at h
  obtain ⟨⟨hs, ht⟩, hle⟩ := h
  refine ⟨⟨hs, ht⟩, ?_⟩
  have hzero : s.radius + t.radius = 0 → s.radius = 0 := fun h0 => by linarith
  -- if both radii are zero, so is the share, and the point is the common center
  have hshare : s.radius / (s.radius + t.radius) * (s.radius + t.radius) = s.radius :=
    div_mul_cancel_of_imp hzero
  generalize s.radius / (s.radius + t.radius) = share at hshare
  have hrest : (1 - share) * (s.radius + t.radius) = t.radius := by
    rw [sub_mul, one_mul, hshare, add_sub_cancel_left]
  obtain ⟨hnear, hfar⟩ := Vec3.distSq_add_mul s.center t.center share
  have hpart : ∀ {r x : K}, x * (s.radius + t.radius) = r →
      x * x * s.center.distSq t.center ≤ r * r := by
    intro r x hx
    rw [← hx, mul_mul_mul_comm]
    exact mul_le_mul_of_nonneg_left hle (mul_self_nonneg x)
  obtain ⟨hnear, hfar⟩ := Vec3.distSq_add_mul s.center t.center share
  refine ⟨s.center + (t.center - s.center) * share, ?_, ?_⟩
  · rw [hnear]
    exact hpart hshare
  · rw [hfar]
    exact hpart hrest

omit [IsStrictOrderedRing K] in
/-- The point of a box nearest to the center of a sphere that the box meets. -/
theorem exists_of_meetsBox {b : Box (Exact P)}
    (h : (s.map (Exact.value : K → Exact P)).meetsBox b = true) :
    0 ≤ s.radius ∧ ∃ q : Vec3 K, s.center.distSq q ≤ s.radiusSq ∧ b.Covers q := by
  simp only [meetsBox, Bool.and_eq_true, Bool.not_eq_true', decide_eq_true_eq,
    isEmpty_map_eq_false_iff, center_map, radiusSq_map] at h
  obtain ⟨⟨hr, hb⟩, hle⟩ := h
  obtain ⟨q, hq⟩ := Vec3.exists_eq_map_of_distSq_le hle
  refine ⟨hr, q, ?_, ?_⟩
  · rwa [hq, Vec3.distSq_map, Exact.value_le_value] at hle
  · have axis : ∀ {o lower upper : Exact P} {x : K}, lower ≤ upper →
        min (max o lower) upper = .value x → Exact.Between lower upper x := by
      intro o lower upper x hlu e
      rw [Exact.Between, ← e]
      exact ⟨le_min (le_max_right _ _) hlu, min_le_right _ _⟩
    obtain ⟨hx, hy, hz⟩ := (Box.isEmpty_eq_false_iff b).1 hb
    exact ⟨axis hx (congrArg Vec3.x hq), axis hy (congrArg Vec3.y hq), axis hz (congrArg Vec3.z hq)⟩

end Sphere

/-! ## Culling -/

theorem Sphere.covers_of_culledBy {s : Sphere K} {b : Box (Exact P)}
    (hb : (Shape.sphere (s.map Exact.value)).CulledBy b) (hr : 0 ≤ s.radius)
    (hq : s.center.distSq q ≤ s.radiusSq) : b.Covers q :=
  hb.covers rfl (covers_bounds hr hq)

theorem Triangle.covers_of_culledBy {t : Triangle K} {b : Box (Exact P)}
    (hb : (Shape.triangle (t.map Exact.value)).CulledBy b) {u v : K}
    (huv : 0 ≤ u ∧ 0 ≤ v ∧ u + v ≤ 1) : b.Covers (t.pointAt u v) :=
  hb.covers rfl (t.covers_bounds huv.1 huv.2.1 huv.2.2)

/-- A box meets a line that has a point which it covers. -/
theorem Box.meets?_of_covers {b : Box (Exact P)} {p : Probe K}
    (hdir : p.direction.All fun d => d = 0 ∨ P.minPositive < |d|) {s : K} (hs : p.InDomain s)
    (hq : b.Covers (p.pointAt s)) : (Shape.box b).meets? (p.map Exact.value).shape = some true := by
  have hline := (meetsLine_iff_of_isProper hq.isProper hdir).2 ⟨s, hs, hq⟩
  cases p with
  | segment g => exact congrArg some hline
  | ray r => exact congrArg some hline

/-- Culling by bounding boxes (`Spatial::bounds`) does not lose a hit. The point in which a ray or
segment hits a triangle is in every box by which the triangle may be culled, and the ray or segment
meets the box. Whatever a sphere meets is met by every box by which the sphere may be culled: a ray
or segment, a box, and another sphere, also if a box by which that one may be culled stands for
it. -/
theorem Shape.culledBy_keeps_hits {ε τ : ℝ} {hτ : 0 < τ} :
    (∀ (t : Triangle ℝ) (b : Box (Exact (.real ε τ hτ))),
      (triangle (t.map Exact.value)).CulledBy b →
      ∀ p : Probe ℝ, (p.direction.All fun d => d = 0 ∨ τ < |d|) →
      ∀ x, (triangle (t.map Exact.value)).hit? (p.map Exact.value).shape = some (some x) →
        b.contains x = true ∧ (box b).meets? (p.map Exact.value).shape = some true) ∧
    ∀ (s : Sphere ℝ) (b : Box (Exact (.real ε τ hτ))), (sphere (s.map Exact.value)).CulledBy b →
      (∀ p : Probe ℝ, (p.direction.All fun d => d = 0 ∨ τ < |d|) →
        (sphere (s.map Exact.value) : Shape (Exact (.real ε τ hτ))).meets?
            (p.map Exact.value).shape = some true →
          (box b).meets? (p.map Exact.value).shape = some true) ∧
      (∀ c : Box (Exact (.real ε τ hτ)),
        (sphere (s.map Exact.value)).meets? (box c) = some true →
          (box b).meets? (box c) = some true) ∧
      ∀ (t : Sphere ℝ) (c : Box (Exact (.real ε τ hτ))), (sphere (t.map Exact.value)).CulledBy c →
        (sphere (s.map Exact.value) : Shape (Exact (.real ε τ hτ))).meets?
            (sphere (t.map Exact.value)) = some true →
          (box b).meets? (box c) = some true := by
  constructor
  · intro t b hb p hdir x hx
    have hhit : (t.map Exact.value).hit? (p.map Exact.value).line = some x := by
      cases p <;> exact Option.some.inj hx
    obtain ⟨u, v, s, huv, hs, hpoint, rfl⟩ := Triangle.exists_of_hit? hhit
    have hq := Triangle.covers_of_culledBy hb huv
    exact ⟨Box.contains_map_iff.2 hq, Box.meets?_of_covers hdir hs (by rwa [hpoint])⟩
  · intro s b hb
    refine ⟨?_, ?_, ?_⟩
    · intro p hdir hmeets
      have hline : (s.map (Exact.value : ℝ → Exact (.real ε τ hτ))).meetsLine
          (p.map Exact.value).line = true := by
        cases p <;> exact Option.some.inj hmeets
      obtain ⟨hr, x, hx, hq⟩ := Sphere.exists_of_meetsLine hline
      exact Box.meets?_of_covers hdir hx (Sphere.covers_of_culledBy hb hr hq)
    · intro c hmeets
      obtain ⟨hr, q, hq, hc⟩ := Sphere.exists_of_meetsBox (Option.some.inj hmeets)
      exact congrArg some (Box.meetsBox_of_covers (Sphere.covers_of_culledBy hb hr hq) hc)
    · intro t c hc hmeets
      obtain ⟨⟨hrs, hrt⟩, q, hs, ht⟩ := Sphere.exists_of_meetsSphere (Option.some.inj hmeets)
      exact congrArg some (Box.meetsBox_of_covers (Sphere.covers_of_culledBy hb hrs hs)
        (Sphere.covers_of_culledBy hc hrt ht))

/-- A ray straight down onto a triangle is not lost by a union with the empty box, and the bounds of
a unit sphere meet a ray that starts on the sphere, a box that touches it and the bounds of a sphere
that touches it. -/
theorem Shape.culledBy_keeps_hits_down :
    ((Box.union [(Triangle.map Exact.value ⟨⟨0, 0, 0⟩, ⟨1, 0, 0⟩, ⟨0, 1, 0⟩⟩).bounds, .empty] :
        Box (Exact (.real 1 (1 / 2) one_half_pos))).contains
          (Vec3.map Exact.value ⟨1 / 4, 1 / 2, 0⟩) = true ∧
      (box (.union [(Triangle.map Exact.value ⟨⟨0, 0, 0⟩, ⟨1, 0, 0⟩, ⟨0, 1, 0⟩⟩).bounds, .empty]) :
        Shape (Exact (.real 1 (1 / 2) one_half_pos))).meets?
          (Probe.map Exact.value (.ray ⟨⟨1 / 4, 1 / 2, 1⟩, ⟨0, 0, -1⟩⟩)).shape = some true) ∧
    (box (Sphere.map Exact.value ⟨⟨0, 0, 0⟩, 1⟩).bounds :
        Shape (Exact (.real 1 (1 / 2) one_half_pos))).meets?
      (Probe.map Exact.value (.ray ⟨⟨0, 0, 1⟩, ⟨0, 0, -1⟩⟩)).shape = some true ∧
    (box (Sphere.map Exact.value ⟨⟨0, 0, 0⟩, 1⟩).bounds :
        Shape (Exact (.real 1 (1 / 2) one_half_pos))).meets?
      (box (Box.map Exact.value ⟨⟨1, 0, 0⟩, ⟨2, 1, 1⟩⟩)) = some true ∧
    (box (Sphere.map Exact.value ⟨⟨0, 0, 0⟩, 1⟩).bounds :
        Shape (Exact (.real 1 (1 / 2) one_half_pos))).meets?
      (box (Sphere.map Exact.value ⟨⟨0, 3, 0⟩, 2⟩).bounds) = some true := by
  have hdir : ∀ o : Vec3 ℝ,
      (Probe.ray ⟨o, ⟨0, 0, -1⟩⟩).direction.All fun d => d = 0 ∨ 1 / 2 < |d| := by
    intro o
    exact ⟨.inl rfl, .inl rfl, .inr (by norm_num [Probe.direction])⟩
  obtain ⟨htriangle, hsphere⟩ := @culledBy_keeps_hits 1 (1 / 2) one_half_pos
  obtain ⟨hline, hbox, hball⟩ := hsphere ⟨⟨0, 0, 0⟩, 1⟩ _ (.inl rfl)
  refine ⟨htriangle _ _ (.inr ⟨[triangle _, box .empty], List.mem_cons_self, rfl⟩) _ (hdir _) _ ?_,
    hline _ (hdir _) ?_, hbox _ ?_, hball _ _ (.inl rfl) ?_⟩
  · have hdet : (1 / 2 : ℝ) < |Triangle.determinant ⟨⟨0, 0, 0⟩, ⟨1, 0, 0⟩, ⟨0, 1, 0⟩⟩
        (Probe.ray ⟨⟨1 / 4, 1 / 2, 1⟩, ⟨0, 0, -1⟩⟩).direction| := by
      norm_num [Triangle.determinant, Triangle.edge0, Triangle.edge1, Vec3.dot, Vec3.cross,
        Probe.direction]
    have hhit := Triangle.hit?_eq_some_iff (P := .real 1 (1 / 2) one_half_pos) hdet
      (Vec3.map Exact.value ⟨1 / 4, 1 / 2, 0⟩)
    refine congrArg some (hhit.2 ?_)
    norm_num [Triangle.Solution.IsHit, Triangle.solve, Triangle.determinant, Triangle.edge0,
      Triangle.edge1, Triangle.pointAt, Vec3.dot, Vec3.cross, Probe.direction, Probe.origin,
      Probe.InDomain, Vec3.map, Vec3.ext_iff]
  · refine congrArg some (?_ : Sphere.meetsLine _ (Probe.map Exact.value (.ray _)).line = true)
    rw [Sphere.meetsLine, Sphere.contact_map _ _ rfl rfl rfl]
    norm_num [Sphere.radiusSq, Vec3.normSq, Vec3.dot, Probe.origin, Sphere.Contact.isHit]
  · exact congrArg some (by
      simp [Sphere.meetsBox, Sphere.isEmpty, Box.isEmpty, Sphere.map, Box.map, Box.nearestTo,
        Sphere.radiusSq, Vec3.distSq, Vec3.normSq, Vec3.dot, Vec3.zipWith])
  · have hle : (3 : ℝ) * 3 ≤ (1 + 2) * (1 + 2) := by norm_num
    exact congrArg some (by
      simp [Sphere.meetsSphere, Sphere.isEmpty, Sphere.map, Vec3.distSq, Vec3.normSq, Vec3.dot,
        hle])

end HitTest
