import HitTest.Proofs.Query.Growth
import HitTest.Proofs.Query.Roots
import HitTest.Proofs.Query.Surface

/-!
# Segments and the rays along them

The ray from the start of a segment in its direction has the same origin and the same direction as
the segment, to the last bit, and only ends later. Every query computes the same numbers for both
and looks at the end in a way that a later end can only help: a span that ends later is clipped to
one that ends no earlier, roots are compared with the end from below, and so is the parameter of a
crossing. This holds for numbers and for what is not a number alike.
-/

namespace HitTest

open Binary hiding min max

/-- The ray from the start of a segment in its direction. -/
def Segment.ray {S : Type} [Sub S] (g : Segment S) : Ray S := ⟨g.start, g.direction⟩

variable {f : Format}

namespace Line

variable {l l' : Line (Binary f)} {s : Binary f}

/-- A line with the same points that does not end earlier. -/
structure Extends (l l' : Line (Binary f)) : Prop where
  origin : l'.origin = l.origin
  direction : l'.direction = l.direction
  maxParam_le : l.maxParam ≤ l'.maxParam

/-- A parameter of the longer line is one of the shorter line up to the end of that. -/
theorem Extends.containsParam_iff (h : l.Extends l') :
    l.containsParam s = true ↔ l'.containsParam s = true ∧ s ≤ l.maxParam := by
  simp only [containsParam, Bool.and_eq_true, decide_eq_true_eq]
  constructor
  · rintro ⟨h0, hmax⟩
    exact ⟨⟨h0, Binary.le_trans hmax h.maxParam_le⟩, hmax⟩
  · rintro ⟨⟨h0, -⟩, hmax⟩
    exact ⟨h0, hmax⟩

end Line

/-- A ray goes on where the segment ends. -/
theorem Segment.extends_ray (g : Segment (Binary f)) : g.line.Extends g.ray.line :=
  ⟨rfl, rfl, le_signedInfinity isFinite_one.1⟩

/-! ## Solids -/

/-- Clipping by the same faces keeps one span within the other, whatever the faces are. -/
theorem Span.Within.clip_same {r r' r1 : Span (Binary f)} (h : r.Within r')
    {o d lower upper : Binary f} (e : r.clip o d lower upper = some r1) :
    ∃ r1', r'.clip o d lower upper = some r1' ∧ r1.Within r1' := by
  by_cases hd : Scalar.abs d ≤ Scalar.minPositive
  · rw [clip_of_still _ hd, Option.ite_none_left_eq_some, Option.some_inj] at e
    obtain ⟨hin, rfl⟩ := e
    exact ⟨r', by rw [clip_of_still _ hd, if_neg hin], h⟩
  · rw [clip_of_moving _ hd, Option.ite_none_left_eq_some, Option.some_inj] at e
    obtain ⟨hne, rfl⟩ := e
    have hnear := Binary.max_le_max_left h.near_le (enter o d lower upper)
    have hfar := Binary.min_le_min_left h.le_far (exit o d lower upper)
    have hne' : ¬ Min.min r'.far (exit o d lower upper) < Max.max r'.near (enter o d lower upper) := by
      intro hlt
      exact hne (Binary.lt_of_le_of_lt hfar (Binary.lt_of_lt_of_le hlt hnear))
    exact ⟨_, by rw [clip_of_moving _ hd, if_neg hne'], hnear, hfar⟩

theorem Box.meetsLine_of_extends {b : Box (Binary f)} {l l' : Line (Binary f)} (h : l.Extends l')
    (hm : b.meetsLine l = true) : b.meetsLine l' = true := by
  rw [meetsLine, Bool.and_eq_true, Option.isSome_iff_exists] at hm ⊢
  obtain ⟨hne, r, hr⟩ := hm
  obtain ⟨r1, r2, e1, e2, e3⟩ := clip_eq_some_iff.1 hr
  have h0 : (⟨0, l.maxParam⟩ : Span (Binary f)).Within ⟨0, l'.maxParam⟩ :=
    ⟨Binary.le_refl rfl, h.maxParam_le⟩
  obtain ⟨r1', e1', h1⟩ := h0.clip_same e1
  obtain ⟨r2', e2', h2⟩ := h1.clip_same e2
  obtain ⟨r', e3', -⟩ := h2.clip_same e3
  refine ⟨hne, r', clip_eq_some_iff.2 ?_⟩
  rw [h.origin, h.direction]
  exact ⟨r1', r2', e1', e2', e3'⟩

theorem Sphere.meetsLine_of_extends {s : Sphere (Binary f)} {l l' : Line (Binary f)}
    (h : l.Extends l') (hm : s.meetsLine l = true) : s.meetsLine l' = true := by
  rw [meetsLine_iff_rootsReach] at hm ⊢
  rw [h.origin, h.direction]
  exact ⟨hm.1, hm.2.imp_right fun hr => hr.extend h.maxParam_le⟩

/-! ## Surfaces -/

/-- The shorter line crosses a triangle where the longer one does, if it is still there. -/
theorem Triangle.crossing_eq_hit_iff_of_extends {t : Triangle (Binary f)} {l l' : Line (Binary f)}
    (h : l.Extends l') {u v s : Binary f} :
    t.crossing l = .hit u v s ↔ t.crossing l' = .hit u v s ∧ s ≤ l.maxParam := by
  rw [crossing_eq_hit_iff, crossing_eq_hit_iff, h.containsParam_iff, h.origin, h.direction,
    and_assoc]

theorem Plane.crossing?_eq_some_iff_of_extends {pl : Plane (Binary f)} {l l' : Line (Binary f)}
    (h : l.Extends l') {s : Binary f} :
    pl.crossing? l = some s ↔ pl.crossing? l' = some s ∧ s ≤ l.maxParam := by
  rw [crossing?_eq_some_iff, crossing?_eq_some_iff, h.containsParam_iff, h.origin, h.direction,
    and_assoc]

theorem Triangle.hit?_of_extends {t : Triangle (Binary f)} {l l' : Line (Binary f)}
    (h : l.Extends l') {p : Vec3 (Binary f)} (hp : t.hit? l = some p) : t.hit? l' = some p := by
  rw [hit?_eq_some_iff_crossing] at hp ⊢
  obtain ⟨u, v, s, hs, hp⟩ := hp
  exact ⟨u, v, s, ((crossing_eq_hit_iff_of_extends h).1 hs).1, hp⟩

theorem Plane.hit?_of_extends {pl : Plane (Binary f)} {l l' : Line (Binary f)}
    (h : l.Extends l') {p : Vec3 (Binary f)} (hp : pl.hit? l = some p) : pl.hit? l' = some p := by
  rw [hit?, Option.map_eq_some_iff] at hp ⊢
  obtain ⟨s, hs, rfl⟩ := hp
  refine ⟨s, ((crossing?_eq_some_iff_of_extends h).1 hs).1, ?_⟩
  rw [Line.pointAt, Line.pointAt, h.origin, h.direction]

/-- A parameter of the longer line that is not one of the shorter line is beyond the end of that. -/
theorem Line.Extends.maxParam_lt {l l' : Line (Binary f)} (h : l.Extends l') {s : Binary f}
    (hs : l'.containsParam s = true) (hnot : ¬ s ≤ l.maxParam) : l.maxParam < s := by
  rw [containsParam, Bool.and_eq_true, decide_eq_true_eq, decide_eq_true_eq] at hs
  exact (Binary.not_le (isNumber_left hs.2) (isNumber_left h.maxParam_le)).1 hnot

/-- Where only the longer line hits, it does so beyond the end of the shorter one. -/
theorem Triangle.exists_beyond_of_extends {t : Triangle (Binary f)} {l l' : Line (Binary f)}
    (h : l.Extends l') {p : Vec3 (Binary f)} (hp : t.hit? l' = some p) (hnone : t.hit? l = none) :
    ∃ u v s, t.crossing l' = .hit u v s ∧ t.pointAt u v = p ∧ l.maxParam < s := by
  obtain ⟨u, v, s, hs, hp⟩ := hit?_eq_some_iff_crossing.1 hp
  refine ⟨u, v, s, hs, hp, h.maxParam_lt (crossing_eq_hit_iff.1 hs).2 ?_⟩
  intro hle
  have hsome := hit?_eq_some_iff_crossing.2
    ⟨u, v, s, (crossing_eq_hit_iff_of_extends h).2 ⟨hs, hle⟩, hp⟩
  rw [hnone] at hsome
  cases hsome

theorem Plane.exists_beyond_of_extends {pl : Plane (Binary f)} {l l' : Line (Binary f)}
    (h : l.Extends l') {p : Vec3 (Binary f)} (hp : pl.hit? l' = some p)
    (hnone : pl.hit? l = none) :
    ∃ s, pl.crossing? l' = some s ∧ l'.pointAt s = p ∧ l.maxParam < s := by
  obtain ⟨s, hs, hp⟩ := Option.map_eq_some_iff.1 hp
  refine ⟨s, hs, hp, h.maxParam_lt (crossing?_eq_some_iff.1 hs).2 ?_⟩
  intro hle
  rw [hit?, (crossing?_eq_some_iff_of_extends h).2 ⟨hs, hle⟩] at hnone
  cases hnone

/-! ## Hits of a segment and of its ray -/

namespace Segment

/-- What is hit by a segment is hit by its ray, a surface in the same point to the last bit (`Line`
for `LineSegment` and for `Ray`). The segment and the shapes can be anything. Where only the ray
hits a surface, the parameter that was computed for the point is beyond the end of the segment. -/
theorem ray_keeps_hits (g : Segment (Binary f)) :
    (∀ b : Box (Binary f), (Shape.box b).meets? (.segment g) = some true →
      (Shape.box b).meets? (.ray g.ray) = some true) ∧
    (∀ s : Sphere (Binary f), (Shape.sphere s).meets? (.segment g) = some true →
      (Shape.sphere s).meets? (.ray g.ray) = some true) ∧
    (∀ (t : Triangle (Binary f)) (p : Vec3 (Binary f)),
      ((Shape.triangle t).hit? (.segment g) = some (some p) →
        (Shape.triangle t).hit? (.ray g.ray) = some (some p)) ∧
      ((Shape.triangle t).hit? (.ray g.ray) = some (some p) →
        (Shape.triangle t).hit? (.segment g) = some none →
          ∃ u v s, t.crossing g.ray.line = .hit u v s ∧ t.pointAt u v = p ∧ 1 < s)) ∧
    ∀ (pl : Plane (Binary f)) (p : Vec3 (Binary f)),
      ((Shape.plane pl).hit? (.segment g) = some (some p) →
        (Shape.plane pl).hit? (.ray g.ray) = some (some p)) ∧
      ((Shape.plane pl).hit? (.ray g.ray) = some (some p) →
        (Shape.plane pl).hit? (.segment g) = some none →
          ∃ s, pl.crossing? g.ray.line = some s ∧ g.ray.line.pointAt s = p ∧ 1 < s) := by
  have h := g.extends_ray
  refine ⟨?_, ?_, ?_, ?_⟩
  · intro b hb
    exact congrArg some (Box.meetsLine_of_extends h (Option.some.inj hb))
  · intro s hs
    exact congrArg some (Sphere.meetsLine_of_extends h (Option.some.inj hs))
  · intro t p
    constructor
    · intro hseg
      exact congrArg some (Triangle.hit?_of_extends h (Option.some.inj hseg))
    · intro hray hseg
      exact Triangle.exists_beyond_of_extends h (Option.some.inj hray) (Option.some.inj hseg)
  · intro pl p
    constructor
    · intro hseg
      exact congrArg some (Plane.hit?_of_extends h (Option.some.inj hseg))
    · intro hray hseg
      exact Plane.exists_beyond_of_extends h (Option.some.inj hray) (Option.some.inj hseg)

/-- The ray of a segment that leads to what is not a number meets the box that the segment meets, and
the ray of a segment that ends on a sphere meets the sphere. The ray of a segment that ends above a
triangle and its plane hits both at a parameter beyond one. -/
theorem ray_keeps_hits_down :
    (Shape.box ⟨0, ⟨1, 1, 1⟩⟩ : Shape Binary32).meets?
        (.ray (Segment.ray ⟨⟨0, 0, ofNat 2⟩, ⟨nan, 0, 1⟩⟩)) = some true ∧
      (Shape.sphere ⟨0, 1⟩ : Shape Binary32).meets?
        (.ray (Segment.ray ⟨⟨0, 0, ofNat 2⟩, ⟨0, 0, 1⟩⟩)) = some true ∧
      (∃ u v s, (⟨0, ⟨1, 0, 0⟩, ⟨0, 1, 0⟩⟩ : Triangle Binary32).crossing
        (Segment.ray ⟨⟨0, 0, ofNat 2⟩, ⟨0, 0, 1⟩⟩).line = .hit u v s ∧
          Triangle.pointAt ⟨0, ⟨1, 0, 0⟩, ⟨0, 1, 0⟩⟩ u v = 0 ∧ 1 < s) ∧
      ∃ s, (⟨⟨0, 0, 1⟩, 0⟩ : Plane Binary32).crossing?
        (Segment.ray ⟨⟨0, 0, ofNat 2⟩, ⟨0, 0, 1⟩⟩).line = some s ∧
          (Segment.ray ⟨⟨0, 0, ofNat 2⟩, ⟨0, 0, 1⟩⟩).line.pointAt s = 0 ∧ 1 < s := by
  have h := ray_keeps_hits (⟨⟨0, 0, ofNat 2⟩, ⟨0, 0, 1⟩⟩ : Segment Binary32)
  refine ⟨?_, ?_, ?_, ?_⟩
  · exact (ray_keeps_hits ⟨⟨0, 0, ofNat 2⟩, ⟨nan, 0, 1⟩⟩).1 _ (by decide +kernel)
  · exact h.2.1 _ (by decide +kernel)
  · exact (h.2.2.1 _ _).2 (by decide +kernel) (by decide +kernel)
  · exact (h.2.2.2 _ _).2 (by decide +kernel) (by decide +kernel)

end Segment

end HitTest
