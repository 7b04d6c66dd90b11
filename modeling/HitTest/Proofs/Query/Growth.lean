import HitTest.Proofs.Query.Slab
import HitTest.Proofs.Query.SphereBox

/-!
# Growing a box (`Aabb::expand_by`)

A box that contains both corners of another one has its faces on the outer sides of the other one's
on every axis, and no query loses an answer by that. For a line the spans that are left of it by the
two boxes are compared axis by axis: differences from the origin and products with the reciprocal
keep their order when they are rounded, or turn it around, so the span in the outer box always has
the span in the inner box within it.
-/

namespace HitTest

open Binary hiding min max

variable {f : Format}

/-! ## Faces within faces -/

namespace Binary

variable {lower upper lower' upper' o d x y : Binary f}

/-- Two faces that are in order, and two others on the outer sides of them. -/
structure Nested (lower upper lower' upper' : Binary f) : Prop where
  lower_le : lower' ≤ lower
  ordered : lower ≤ upper
  le_upper : upper ≤ upper'

theorem Nested.outer_ordered (h : Nested lower upper lower' upper') : lower' ≤ upper' :=
  Binary.le_trans h.lower_le (Binary.le_trans h.ordered h.le_upper)

/-- The parameters at which a moving line crosses coordinates are in the order of the coordinates,
or all in the opposite order, depending on the direction. -/
theorem crossings_ordered (ho : o.IsFinite) (hd : d.IsFinite) (hbig : ¬ d.abs ≤ minPositive) :
    (∀ {x y : Binary f}, x ≤ y → (x - o) * (1 / d) ≤ (y - o) * (1 / d)) ∨
      ∀ {x y : Binary f}, x ≤ y → (y - o) * (1 / d) ≤ (x - o) * (1 / d) := by
  obtain ⟨hi, hi0⟩ := reciprocal_ne_zero hd hbig
  have hsub : ∀ {x : Binary f}, x.isNumber = true → (x - o).isNumber = true := fun hx =>
    (sub_signs hx ho).1
  have hmul : ∀ {x : Binary f}, x.isNumber = true → ((x - o) * (1 / d)).isNumber = true := fun hx =>
    (mul_signs (hsub hx) hi hi0).1
  have hdiff : ∀ {x y : Binary f}, x ≤ y → x - o ≤ y - o := fun hxy =>
    Binary.sub_le_sub hxy (Binary.le_refl ho.1) (hsub (isNumber_left hxy))
      (hsub (isNumber_right hxy))
  rcases lt_or_gt_of_ne hi0 with h | h
  · right
    intro x y hxy
    exact Binary.mul_le_mul_right_of_nonpos (nonpos_iff.2 ⟨hi.1, h.le⟩) (hdiff hxy)
      (hmul (isNumber_left hxy)) (hmul (isNumber_right hxy))
  · left
    intro x y hxy
    exact Binary.mul_le_mul_right (nonneg_iff.2 ⟨hi.1, h.le⟩) (hdiff hxy)
      (hmul (isNumber_left hxy)) (hmul (isNumber_right hxy))

end Binary

/-! ## Spans within spans -/

namespace Span

variable {r r' r1 : Span (Binary f)} {o d x lower upper lower' upper' : Binary f}

/-- A span whose ends are not outside of those of another one. -/
structure Within (r r' : Span (Binary f)) : Prop where
  near_le : r'.near ≤ r.near
  le_far : r.far ≤ r'.far

/-- A line crosses what is between two faces not before it enters and not after it leaves. -/
theorem enter_le_crossing_le_exit (ho : o.IsFinite) (hd : d.IsFinite) (hbig : ¬ d.abs ≤ minPositive)
    (hl : lower ≤ x) (hu : x ≤ upper) :
    enter o d lower upper ≤ (x - o) * (1 / d) ∧ (x - o) * (1 / d) ≤ exit o d lower upper := by
  have enter_exit_eq : ((lower - o) * (1 / d)).isNumber = true →
      ((upper - o) * (1 / d)).isNumber = true →
      enter o d lower upper = Min.min ((lower - o) * (1 / d)) ((upper - o) * (1 / d)) ∧
        exit o d lower upper = Max.max ((upper - o) * (1 / d)) ((lower - o) * (1 / d)) :=
    fun hx hy => ⟨(min_eq hx hy).symm, (max_eq hy hx).symm⟩
  rcases crossings_ordered ho hd hbig with hmono | hanti
  · -- the lower face is crossed first
    have h1 := hmono hl
    have h2 := hmono hu
    obtain ⟨henter, hexit⟩ := enter_exit_eq (isNumber_left h1) (isNumber_right h2)
    rw [henter, hexit]
    exact ⟨Binary.le_trans (Binary.min_le (isNumber_left h1) (isNumber_right h2)).1 h1,
      Binary.le_trans h2 (Binary.le_max (isNumber_right h2) (isNumber_left h1)).1⟩
  · -- the upper face is crossed first
    have h1 := hanti hl
    have h2 := hanti hu
    obtain ⟨henter, hexit⟩ := enter_exit_eq (isNumber_right h1) (isNumber_left h2)
    rw [henter, hexit]
    exact ⟨Binary.le_trans (Binary.min_le (isNumber_right h1) (isNumber_left h2)).2 h2,
      Binary.le_trans h1 (Binary.le_max (isNumber_left h2) (isNumber_right h1)).2⟩

/-- A line enters between the outer faces no later than between the inner ones, and leaves them no
earlier. -/
theorem enter_exit_of_nested (h : Nested lower upper lower' upper') (ho : o.IsFinite)
    (hd : d.IsFinite) (hbig : ¬ d.abs ≤ minPositive) :
    enter o d lower' upper' ≤ enter o d lower upper ∧
      exit o d lower upper ≤ exit o d lower' upper' := by
  obtain ⟨henter1, hexit1⟩ := enter_le_crossing_le_exit ho hd hbig h.lower_le
    (Binary.le_trans h.ordered h.le_upper)
  obtain ⟨henter2, hexit2⟩ := enter_le_crossing_le_exit ho hd hbig
    (Binary.le_trans h.lower_le h.ordered) h.le_upper
  rw [enter.eq_def o d lower upper, exit.eq_def o d lower upper]
  split
  · exact ⟨henter2, hexit1⟩
  · exact ⟨henter1, hexit2⟩

/-- Clipping by outer faces leaves a span that has what inner faces leave within it. -/
theorem Within.clip (hr : r.Within r') (h : Nested lower upper lower' upper') (ho : o.IsFinite)
    (hd : d.IsFinite) (e : r.clip o d lower upper = some r1) :
    ∃ r1', r'.clip o d lower' upper' = some r1' ∧ r1.Within r1' := by
  by_cases hbig : Scalar.abs d ≤ Scalar.minPositive
  · rw [r.clip_of_still hbig, Option.ite_none_left_eq_some, Option.some_inj] at e
    obtain ⟨hin, rfl⟩ := e
    have hin' : ¬ (o < lower' ∨ upper' < o) := by
      rintro (hlt | hlt)
      · exact hin (.inl (Binary.lt_of_lt_of_le hlt h.lower_le))
      · exact hin (.inr (Binary.lt_of_le_of_lt h.le_upper hlt))
    exact ⟨r', by rw [r'.clip_of_still hbig, if_neg hin'], hr⟩
  · rw [r.clip_of_moving hbig, Option.ite_none_left_eq_some, Option.some_inj] at e
    obtain ⟨hne, rfl⟩ := e
    obtain ⟨henter, hexit⟩ := enter_exit_of_nested h ho hd hbig
    have hnear := Binary.max_le_max hr.near_le henter
    have hfar := Binary.min_le_min hr.le_far hexit
    -- an empty outer span would leave the inner one empty
    have hne' : ¬ Min.min r'.far (exit o d lower' upper') <
        Max.max r'.near (enter o d lower' upper') := fun hlt =>
      hne (Binary.lt_of_le_of_lt hfar (Binary.lt_of_lt_of_le hlt hnear))
    exact ⟨_, by rw [r'.clip_of_moving hbig, if_neg hne'], hnear, hfar⟩

end Span

/-! ## Boxes within boxes -/

namespace Box

variable {a b : Box (Binary f)}

/-- A box that is not empty, and another one whose faces are on the outer sides on every axis. -/
structure Within (a b : Box (Binary f)) : Prop where
  x : Nested a.least.x a.greatest.x b.least.x b.greatest.x
  y : Nested a.least.y a.greatest.y b.least.y b.greatest.y
  z : Nested a.least.z a.greatest.z b.least.z b.greatest.z

theorem within_of_containsBox (ha : a.IsNumeric) (hb : b.IsNumeric) (hne : a.isEmpty = false)
    (h : b.containsBox a = true) : a.Within b := by
  rw [containsBox, Bool.and_eq_true, contains_iff hb ha.1, contains_iff hb ha.2] at h
  obtain ⟨⟨⟨hx1, -⟩, ⟨hy1, -⟩, hz1, -⟩, ⟨-, hx2⟩, ⟨-, hy2⟩, -, hz2⟩ := h
  obtain ⟨hx, hy, hz⟩ := (isEmpty_eq_false_iff_le ha).1 hne
  exact ⟨⟨hx1, hx, hx2⟩, ⟨hy1, hy, hy2⟩, ⟨hz1, hz, hz2⟩⟩

theorem within_refl (ha : a.IsNumeric) (hne : a.isEmpty = false) : a.Within a := by
  obtain ⟨⟨hx1, hy1, hz1⟩, hx2, hy2, hz2⟩ := id ha
  obtain ⟨hx, hy, hz⟩ := (isEmpty_eq_false_iff_le ha).1 hne
  exact ⟨⟨Binary.le_refl hx1, hx, Binary.le_refl hx2⟩, ⟨Binary.le_refl hy1, hy, Binary.le_refl hy2⟩,
    ⟨Binary.le_refl hz1, hz, Binary.le_refl hz2⟩⟩

namespace Within

variable (h : a.Within b)

include h

theorem isNumeric : a.IsNumeric :=
  ⟨⟨isNumber_left h.x.ordered, isNumber_left h.y.ordered, isNumber_left h.z.ordered⟩,
    isNumber_right h.x.ordered, isNumber_right h.y.ordered, isNumber_right h.z.ordered⟩

theorem isNumeric_outer : b.IsNumeric :=
  ⟨⟨isNumber_left h.x.lower_le, isNumber_left h.y.lower_le, isNumber_left h.z.lower_le⟩,
    isNumber_right h.x.le_upper, isNumber_right h.y.le_upper, isNumber_right h.z.le_upper⟩

theorem isEmpty_eq_false : b.isEmpty = false :=
  (isEmpty_eq_false_iff_le h.isNumeric_outer).2
    ⟨h.x.outer_ordered, h.y.outer_ordered, h.z.outer_ordered⟩

theorem expandBy {p : Vec3 (Binary f)} (hp : p.All (·.isNumber = true)) :
    a.Within (b.expandBy p) := by
  have axis : ∀ {lower upper lower' upper' x : Binary f}, Nested lower upper lower' upper' →
      x.isNumber = true → Nested lower upper (Min.min lower' x) (Max.max upper' x) := by
    intro lower upper lower' upper' x h hx
    have hmin := (Binary.min_le (isNumber_left h.lower_le) hx).1
    have hmax := (Binary.le_max (isNumber_right h.le_upper) hx).1
    exact ⟨Binary.le_trans hmin h.lower_le, h.ordered, Binary.le_trans h.le_upper hmax⟩
  exact ⟨axis h.x hp.1, axis h.y hp.2.1, axis h.z hp.2.2⟩

theorem expandByBox {c : Box (Binary f)} (hc : c.IsNumeric) : a.Within (b.expandByBox c) := by
  rw [Box.expandByBox]
  split
  · exact h
  · exact (h.expandBy hc.1).expandBy hc.2

/-- A point that is not beyond a face is not beyond an outer one. -/
theorem contains_of_contains {p : Vec3 (Binary f)} (hp : a.contains p = true) :
    b.contains p = true := by
  simp only [contains, excludes, Bool.not_eq_true', Bool.or_eq_false_iff,
    decide_eq_false_iff_not] at hp ⊢
  obtain ⟨⟨⟨⟨⟨x1, x2⟩, y1⟩, y2⟩, z1⟩, z2⟩ := hp
  have above : ∀ {s lower lower' : Binary f}, lower' ≤ lower → ¬ s < lower → ¬ s < lower' :=
    fun hle => mt (Binary.lt_of_lt_of_le · hle)
  have below : ∀ {s upper upper' : Binary f}, upper ≤ upper' → ¬ upper < s → ¬ upper' < s :=
    fun hle => mt (Binary.lt_of_le_of_lt hle)
  exact ⟨⟨⟨⟨⟨above h.x.lower_le x1, below h.x.le_upper x2⟩, above h.y.lower_le y1⟩,
    below h.y.le_upper y2⟩, above h.z.lower_le z1⟩, below h.z.le_upper z2⟩

theorem meetsBox_of_meetsBox {c : Box (Binary f)} (hc : a.meetsBox c = true) :
    b.meetsBox c = true := by
  simp only [meetsBox, Bool.and_eq_true, Bool.not_eq_true', decide_eq_true_eq] at hc ⊢
  obtain ⟨⟨⟨⟨⟨⟨⟨-, hne⟩, x1⟩, x2⟩, y1⟩, y2⟩, z1⟩, z2⟩ := hc
  exact ⟨⟨⟨⟨⟨⟨⟨h.isEmpty_eq_false, hne⟩, Binary.le_trans h.x.lower_le x1⟩,
    Binary.le_trans x2 h.x.le_upper⟩, Binary.le_trans h.y.lower_le y1⟩,
    Binary.le_trans y2 h.y.le_upper⟩, Binary.le_trans h.z.lower_le z1⟩,
    Binary.le_trans z2 h.z.le_upper⟩

/-- The point of the inner box that is nearest to the center is in the outer box too. -/
theorem meetsBox_sphere {s : Sphere (Binary f)} (hs : s.center.All IsFinite)
    (hm : s.meetsBox a = true) : s.meetsBox b = true := by
  obtain ⟨hin, hreach⟩ := Sphere.contains_nearestTo_of_meetsBox hs h.isNumeric hm
  exact Sphere.meetsBox_of_contains hs h.isNumeric_outer (h.contains_of_contains hin) hreach

/-- After every axis the span in the inner box is within the span in the outer box. -/
theorem meetsLine_of_meetsLine {l : Line (Binary f)} (ho : l.origin.All IsFinite)
    (hd : l.direction.All IsFinite) (hmax : l.maxParam.isNumber = true)
    (hm : a.meetsLine l = true) : b.meetsLine l = true := by
  rw [meetsLine, Bool.and_eq_true, Option.isSome_iff_exists] at hm ⊢
  obtain ⟨-, r, hr⟩ := hm
  obtain ⟨r1, r2, e1, e2, e3⟩ := clip_eq_some_iff.1 hr
  have h0 : (⟨0, l.maxParam⟩ : Span (Binary f)).Within ⟨0, l.maxParam⟩ :=
    ⟨Binary.le_refl rfl, Binary.le_refl hmax⟩
  obtain ⟨r1', e1', h1⟩ := h0.clip h.x ho.1 hd.1 e1
  obtain ⟨r2', e2', h2⟩ := h1.clip h.y ho.2.1 hd.2.1 e2
  obtain ⟨r', e3', -⟩ := h2.clip h.z ho.2.2 hd.2.2 e3
  exact ⟨by rw [h.isEmpty_eq_false]; rfl, r', clip_eq_some_iff.2 ⟨r1', r2', e1', e2', e3'⟩⟩

end Within

end Box

/-! ## Queries of the outer box -/

/-- What a box is asked for is in its place: a line has a finite origin and a finite direction, and
a sphere a finite center. -/
def Shape.IsPlaced : Shape (Binary f) → Prop
  | ray r => r.origin.All IsFinite ∧ r.direction.All IsFinite
  | segment g => g.start.All IsFinite ∧ g.direction.All IsFinite
  | sphere s => s.center.All IsFinite
  | _ => True

namespace Box

variable {a b : Box (Binary f)}

/-- What a box meets is met by a box around it. -/
theorem Within.meets? (h : a.Within b) {x : Shape (Binary f)} (hx : x.IsPlaced)
    (hm : (Shape.box a).meets? x = some true) : (Shape.box b).meets? x = some true := by
  cases x with
  | point p => exact congrArg some (h.contains_of_contains (Option.some.inj hm))
  | box c => exact congrArg some (h.meetsBox_of_meetsBox (Option.some.inj hm))
  | sphere s => exact congrArg some (h.meetsBox_sphere hx (Option.some.inj hm))
  | ray r => exact congrArg some (h.meetsLine_of_meetsLine hx.1 hx.2 rfl (Option.some.inj hm))
  | segment g =>
    exact congrArg some (h.meetsLine_of_meetsLine hx.1 hx.2 isFinite_one.1 (Option.some.inj hm))
  | triangle t => cases hm
  | plane p => cases hm

/-- Growing a box that is not empty never loses a hit: not by taking any box that contains both of
its corners, and not by growing it to contain a point or another box (`Aabb::is_aabb_inside`,
`Aabb::expand_by`, `Aabb::expand_by_aabb`). All corners are numbers, and so is the point. -/
theorem meets_of_containsBox (ha : a.IsNumeric) (hne : a.isEmpty = false) {x : Shape (Binary f)}
    (hx : x.IsPlaced) (hm : (Shape.box a).meets? x = some true) :
    (∀ b : Box (Binary f), b.IsNumeric → b.containsBox a = true →
      (Shape.box b).meets? x = some true) ∧
    (∀ p : Vec3 (Binary f), p.All (·.isNumber = true) →
      (Shape.box (a.expandBy p)).meets? x = some true) ∧
    ∀ c : Box (Binary f), c.IsNumeric → (Shape.box (a.expandByBox c)).meets? x = some true := by
  have hrefl := within_refl ha hne
  refine ⟨?_, ?_, ?_⟩
  · intro b hb hin
    exact (within_of_containsBox ha hb hne hin).meets? hx hm
  · intro p hp
    exact (hrefl.expandBy hp).meets? hx hm
  · intro c hc
    exact (hrefl.expandByBox hc).meets? hx hm

/-- A ray to a corner of a flat box still meets the box when that was grown without bounds. -/
theorem meets_of_containsBox_corner :
    (Shape.box (Box.expandBy ⟨⟨0, 0, 0⟩, ⟨1, 1, 0⟩⟩ ⟨-infinity, 1, infinity⟩) :
      Shape Binary32).meets? (.ray ⟨⟨1, 1, 1⟩, ⟨0, -1, -1⟩⟩) = some true := by
  have hzero : (0 : Binary32).IsFinite := ⟨rfl, by decide⟩
  have hone : (1 : Binary32).IsFinite := isFinite_one
  have h := meets_of_containsBox (a := ⟨⟨0, 0, 0⟩, ⟨1, 1, 0⟩⟩) (x := .ray ⟨⟨1, 1, 1⟩, ⟨0, -1, -1⟩⟩)
    ⟨⟨rfl, rfl, rfl⟩, rfl, rfl, rfl⟩ (by decide)
    ⟨⟨hone, hone, hone⟩, hzero, hone.neg, hone.neg⟩ (by decide)
  exact h.2.1 ⟨-infinity, 1, infinity⟩ ⟨rfl, rfl, rfl⟩

end Box

end HitTest
