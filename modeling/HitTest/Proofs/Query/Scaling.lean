import HitTest.Proofs.Binary.Scaling
import HitTest.Proofs.Query.Roots
import HitTest.Proofs.Query.Slab
import HitTest.Proofs.Query.Surface
import HitTest.Query.Any

/-!
# Directions of any length

The direction of a ray can be multiplied by a power of two without changing its points. Every
parameter that a query computes is then divided by that power, exactly, and all comparisons come out
the same, provided that nothing on the way is too large or too small for the format: no sum or
product of finite numbers overflows, none but those with a zero factor underflow, and what is
compared with the threshold below which a quotient is not formed is zero or above it. A ray
`Resolves` with a shape if that is so as far as the query gets.
-/

namespace HitTest

open Binary hiding min max

variable {f : Format} {i j k : ℤ}

/-! ## Vectors -/

namespace Binary

variable {x x' y y' z z' w w' : Binary f}

/-- A difference of products in range. -/
structure MulSubFits (x y z w : Binary f) : Prop where
  left : MulFits x y
  right : MulFits z w
  sub : AddFits (x * y) (-(z * w))

theorem Scaled.mulSub (hx : Scaled i x x') (hy : Scaled j y y') (hz : Scaled i z z')
    (hw : Scaled j w w') (h : MulSubFits x y z w) (h' : MulSubFits x' y' z' w') :
    Scaled (i + j) (x * y - z * w) (x' * y' - z' * w') :=
  (hx.mul hy h.left h'.left).sub (hz.mul hw h.right h'.right) h.sub h'.sub

end Binary

namespace Vec3

variable {a a' b b' : Vec3 (Binary f)}

/-- Every component is scaled. -/
structure Scaled (k : ℤ) (a a' : Vec3 (Binary f)) : Prop where
  x : Binary.Scaled k a.x a'.x
  y : Binary.Scaled k a.y a'.y
  z : Binary.Scaled k a.z a'.z

/-- An inner product in range. -/
structure DotFits (a b : Vec3 (Binary f)) : Prop where
  x : MulFits a.x b.x
  y : MulFits a.y b.y
  z : MulFits a.z b.z
  add : AddFits (a.x * b.x) (a.y * b.y)
  add_last : AddFits (a.x * b.x + a.y * b.y) (a.z * b.z)

/-- A cross product in range. -/
structure CrossFits (a b : Vec3 (Binary f)) : Prop where
  x : MulSubFits a.y b.z a.z b.y
  y : MulSubFits a.z b.x a.x b.z
  z : MulSubFits a.x b.y a.y b.x

namespace Scaled

protected theorem refl (a : Vec3 (Binary f)) : Scaled 0 a a := ⟨.refl _, .refl _, .refl _⟩

theorem coord (h : Scaled k a a') (i : Axis) : Binary.Scaled k (a.coord i) (a'.coord i) := by
  cases i with
  | x => exact h.x
  | y => exact h.y
  | z => exact h.z

theorem dot (ha : Scaled j a a') (hb : Scaled k b b') (h : DotFits a b) (h' : DotFits a' b') :
    Binary.Scaled (j + k) (a.dot b) (a'.dot b') :=
  ((ha.x.mul hb.x h.x h'.x).add (ha.y.mul hb.y h.y h'.y) h.add h'.add).add
    (ha.z.mul hb.z h.z h'.z) h.add_last h'.add_last

theorem cross (ha : Scaled j a a') (hb : Scaled k b b') (h : CrossFits a b)
    (h' : CrossFits a' b') : Scaled (j + k) (a.cross b) (a'.cross b') :=
  ⟨ha.y.mulSub hb.z ha.z hb.y h.x h'.x, ha.z.mulSub hb.x ha.x hb.z h.y h'.y,
    ha.x.mulSub hb.y ha.y hb.x h.z h'.z⟩

end Scaled

end Vec3

/-- A ray from the same origin whose direction is multiplied by a power of two. -/
structure Ray.Scaled (k : ℤ) (r r' : Ray (Binary f)) : Prop where
  origin : r'.origin = r.origin
  direction : r.direction.Scaled k r'.direction

variable {r r' : Ray (Binary f)}

/-- A ray is present where the other one is. -/
theorem Ray.containsParam_iff_of_scaled {s s' : Binary f} (hs : Binary.Scaled k s s') :
    r'.line.containsParam s' = true ↔ r.line.containsParam s = true := by
  simp only [Line.containsParam, Bool.and_eq_true, decide_eq_true_eq]
  exact and_congr (Binary.Scaled.zero.le_iff hs) (hs.le_iff .infinity)

/-! ## Surfaces -/

namespace Plane

variable {pl : Plane (Binary f)}

theorem isSome_hit?_iff : (pl.hit? r.line).isSome = true ↔
    ¬ (pl.normal.dot r.direction).abs ≤ minPositive ∧
      r.line.containsParam (-pl.distanceTo r.origin / pl.normal.dot r.direction) = true := by
  rw [hit?, Option.isSome_map, Option.isSome_iff_exists]
  simp only [crossing?_eq_some_iff]
  constructor
  · rintro ⟨s, ⟨h, rfl⟩, hs⟩
    exact ⟨h, hs⟩
  · rintro ⟨h, hs⟩
    exact ⟨_, ⟨h, rfl⟩, hs⟩

/-- What is computed for a plane and a ray is in range. -/
structure Resolves (pl : Plane (Binary f)) (r : Ray (Binary f)) : Prop where
  slope : pl.normal.DotFits r.direction
  clear : IsClear (pl.normal.dot r.direction)
  param : ¬ (pl.normal.dot r.direction).abs ≤ minPositive →
    DivFits (-pl.distanceTo r.origin) (pl.normal.dot r.direction)

theorem isSome_hit?_scaled (h : r.Scaled k r') (hr : pl.Resolves r) (hr' : pl.Resolves r') :
    (pl.hit? r'.line).isSome = (pl.hit? r.line).isSome := by
  have hslope : Binary.Scaled (0 + k) (pl.normal.dot r.direction) (pl.normal.dot r'.direction) :=
    (Vec3.Scaled.refl pl.normal).dot h.direction hr.slope hr'.slope
  have hstill := hslope.still_iff hr.clear hr'.clear
  rw [Bool.eq_iff_iff, isSome_hit?_iff, isSome_hit?_iff, hstill]
  refine and_congr_right fun hmoves => Ray.containsParam_iff_of_scaled (k := 0 - (0 + k)) ?_
  have hdist : Binary.Scaled 0 (-pl.distanceTo r.origin) (-pl.distanceTo r'.origin) := by
    rw [h.origin]
    exact .refl _
  exact hdist.div hslope (Binary.Scaled.value_ne_zero hmoves) (hr.param hmoves)
    (hr'.param (mt hstill.1 hmoves))

end Plane

namespace Triangle

variable {t : Triangle (Binary f)} {o d d' : Vec3 (Binary f)}

/-- The coordinate along the first edge that is computed for a line. -/
def share0 (t : Triangle (Binary f)) (o d : Vec3 (Binary f)) : Binary f :=
  1 / t.determinant d * (o - t.v0).dot (d.cross t.edge1)

/-- The coordinate along the second edge that is computed for a line. -/
def share1 (t : Triangle (Binary f)) (o d : Vec3 (Binary f)) : Binary f :=
  1 / t.determinant d * d.dot ((o - t.v0).cross t.edge0)

/-- The parameter that is computed for a line. -/
def paramOf (t : Triangle (Binary f)) (o d : Vec3 (Binary f)) : Binary f :=
  1 / t.determinant d * t.edge1.dot ((o - t.v0).cross t.edge0)

/-- The tests that a line passes before its parameter is looked at. -/
structure Admits (t : Triangle (Binary f)) (o d : Vec3 (Binary f)) : Prop where
  moves : ¬ (t.determinant d).abs ≤ minPositive
  share0 : ¬ (t.share0 o d < 0 ∨ 1 < t.share0 o d)
  share1 : ¬ (t.share1 o d < 0 ∨ 1 < t.share0 o d + t.share1 o d)

theorem isSome_hit?_iff : (t.hit? r.line).isSome = true ↔
    t.Admits r.origin r.direction ∧
      r.line.containsParam (t.paramOf r.origin r.direction) = true := by
  rw [Option.isSome_iff_exists]
  simp only [hit?_eq_some_iff_crossing, crossing_eq_hit_iff]
  constructor
  · rintro ⟨p, u, v, s, ⟨⟨h1, rfl, h2, rfl, h3, rfl⟩, h4⟩, -⟩
    exact ⟨⟨h1, h2, h3⟩, h4⟩
  · rintro ⟨⟨h1, h2, h3⟩, h4⟩
    exact ⟨_, _, _, _, ⟨⟨h1, rfl, h2, rfl, h3, rfl⟩, h4⟩, rfl⟩

/-- What is computed for a triangle and a ray is in range, as far as the tests are passed. -/
structure Resolves (t : Triangle (Binary f)) (r : Ray (Binary f)) : Prop where
  cross : r.direction.CrossFits t.edge1
  determinant : t.edge0.DotFits (r.direction.cross t.edge1)
  clear : IsClear (t.determinant r.direction)
  inverse : ¬ (t.determinant r.direction).abs ≤ minPositive → DivFits 1 (t.determinant r.direction)
  share0 : ¬ (t.determinant r.direction).abs ≤ minPositive →
    (r.origin - t.v0).DotFits (r.direction.cross t.edge1) ∧
      MulFits (1 / t.determinant r.direction)
        ((r.origin - t.v0).dot (r.direction.cross t.edge1))
  share1 : ¬ (t.determinant r.direction).abs ≤ minPositive →
    ¬ (t.share0 r.origin r.direction < 0 ∨ 1 < t.share0 r.origin r.direction) →
      r.direction.DotFits ((r.origin - t.v0).cross t.edge0) ∧
        MulFits (1 / t.determinant r.direction)
          (r.direction.dot ((r.origin - t.v0).cross t.edge0))
  param : t.Admits r.origin r.direction →
    MulFits (1 / t.determinant r.direction) (t.edge1.dot ((r.origin - t.v0).cross t.edge0))

/-- A ray that passes the tests goes on doing so, and its parameter is divided by the power. -/
theorem Admits.scaled (h : r.Scaled k r') (hr : t.Resolves r) (hr' : t.Resolves r')
    (ha : t.Admits r.origin r.direction) : t.Admits r'.origin r'.direction ∧
      Binary.Scaled (-k) (t.paramOf r.origin r.direction) (t.paramOf r'.origin r'.direction) := by
  obtain ⟨o, d⟩ := r
  obtain ⟨o', d'⟩ := r'
  obtain ⟨rfl, hd⟩ := h
  have hcross := hd.cross (.refl t.edge1) hr.cross hr'.cross
  have hdet := (Vec3.Scaled.refl t.edge0).dot hcross hr.determinant hr'.determinant
  have hmoves := ha.moves
  have hmoves' := (not_congr (hdet.still_iff hr.clear hr'.clear)).2 hmoves
  have hinverse := (Binary.Scaled.refl 1).div hdet (Binary.Scaled.value_ne_zero hmoves)
    (hr.inverse hmoves) (hr'.inverse hmoves')
  have hfirst : Binary.Scaled 0 (t.share0 o' d) (t.share0 o' d') :=
    (hinverse.mul ((Vec3.Scaled.refl (o' - t.v0)).dot hcross (hr.share0 hmoves).1
      (hr'.share0 hmoves').1) (hr.share0 hmoves).2 (hr'.share0 hmoves').2).of_eq (by ring)
  have hrange0 : ¬ (t.share0 o' d' < 0 ∨ 1 < t.share0 o' d') := by
    rw [hfirst.lt_iff .zero, (Binary.Scaled.refl 1).lt_iff hfirst]
    exact ha.share0
  have hoffset := Vec3.Scaled.refl ((o' - t.v0).cross t.edge0)
  have hsecond : Binary.Scaled 0 (t.share1 o' d) (t.share1 o' d') :=
    (hinverse.mul (hd.dot hoffset (hr.share1 hmoves ha.share0).1
      (hr'.share1 hmoves' hrange0).1) (hr.share1 hmoves ha.share0).2
      (hr'.share1 hmoves' hrange0).2).of_eq (by ring)
  have hrange1 : ¬ (t.share1 o' d' < 0 ∨ 1 < t.share0 o' d' + t.share1 o' d') := by
    rw [hsecond.lt_iff .zero, (Binary.Scaled.refl 1).lt_iff (hfirst.add_same hsecond)]
    exact ha.share1
  have hadmits : t.Admits o' d' := ⟨hmoves', hrange0, hrange1⟩
  exact ⟨hadmits, (hinverse.mul (.refl _) (hr.param ha) (hr'.param hadmits)).of_eq (by ring)⟩

theorem isSome_hit?_of_scaled (h : r.Scaled k r') (hr : t.Resolves r) (hr' : t.Resolves r')
    (hit : (t.hit? r.line).isSome = true) : (t.hit? r'.line).isSome = true := by
  rw [isSome_hit?_iff] at hit ⊢
  obtain ⟨hadmits, hparam⟩ := hit.1.scaled h hr hr'
  exact ⟨hadmits, (Ray.containsParam_iff_of_scaled hparam).2 hit.2⟩

end Triangle

/-! ## Solids -/

namespace Sphere

variable {s : Sphere (Binary f)} {a a' b b' c c' : Binary f}

/-- What is computed from the coefficients of the polynomial is in range, as far as it is. -/
structure RootsFit (a b c : Binary f) : Prop where
  discriminant : ¬ a ≤ 0 → MulSubFits b b a c
  near : ¬ a ≤ 0 → ¬ b * b - a * c < 0 →
    AddFits (-b) (-(b * b - a * c).sqrt) ∧ DivFits (-b - (b * b - a * c).sqrt) a
  far : ¬ a ≤ 0 → ¬ b * b - a * c < 0 →
    AddFits (-b) (b * b - a * c).sqrt ∧ DivFits (-b + (b * b - a * c).sqrt) a

/-- The roots are divided by the power, and reach to the same parts of a ray. -/
theorem RootsReach.scaled (ha : Binary.Scaled (k + k) a a') (hb : Binary.Scaled k b b')
    (hc : Binary.Scaled 0 c c') (h : RootsFit a b c) (h' : RootsFit a' b' c')
    (hreach : RootsReach a b c infinity) : RootsReach a' b' c' infinity := by
  have hmoves := hreach.moves
  have hmoves' : ¬ a' ≤ 0 := mt (ha.le_iff .zero).1 hmoves
  have hdiv : a.IsFinite → a.value ≠ 0 := fun hfin h0 =>
    hmoves (nonpos_iff.2 ⟨hfin.1, h0.le⟩)
  have hdisc := h.discriminant hmoves
  have hdisc' := h'.discriminant hmoves'
  have hscaled : Binary.Scaled (k + k) (b * b - a * c) (b' * b' - a' * c') :=
    (hb.mul hb hdisc.left hdisc'.left).sub
      ((ha.mul hc hdisc.right hdisc'.right).of_eq (add_zero _)) hdisc.sub hdisc'.sub
  have hreal' : ¬ b' * b' - a' * c' < 0 := mt (hscaled.lt_iff .zero).1 hreach.real
  have hnear := h.near hmoves hreach.real
  have hnear' := h'.near hmoves' hreal'
  have hfar := h.far hmoves hreach.real
  have hfar' := h'.far hmoves' hreal'
  have hroot := hscaled.sqrt
  refine ⟨hmoves', hreal', ?_, ?_⟩
  · exact (((hb.neg.sub hroot hnear.1 hnear'.1).div ha hdiv hnear.2 hnear'.2).le_iff
      .infinity).2 hreach.near_le
  · exact (Binary.Scaled.zero.le_iff ((hb.neg.add hroot hfar.1 hfar'.1).div ha hdiv hfar.2
      hfar'.2)).2 hreach.le_far

/-- What is computed for a sphere and a ray that starts outside of it is in range. -/
structure Resolves (s : Sphere (Binary f)) (r : Ray (Binary f)) : Prop where
  lengthSq : ¬ (r.origin - s.center).normSq - s.radiusSq ≤ 0 → r.direction.DotFits r.direction
  slope : ¬ (r.origin - s.center).normSq - s.radiusSq ≤ 0 →
    r.direction.DotFits (r.origin - s.center)
  roots : ¬ (r.origin - s.center).normSq - s.radiusSq ≤ 0 →
    RootsFit r.direction.normSq (r.direction.dot (r.origin - s.center))
      ((r.origin - s.center).normSq - s.radiusSq)

theorem meetsLine_of_scaled (h : r.Scaled k r') (hr : s.Resolves r) (hr' : s.Resolves r')
    (hm : s.meetsLine r.line = true) : s.meetsLine r'.line = true := by
  obtain ⟨o, d⟩ := r
  obtain ⟨o', d'⟩ := r'
  obtain ⟨rfl, hd⟩ := h
  rw [meetsLine_iff_rootsReach] at hm ⊢
  refine ⟨hm.1, ?_⟩
  by_cases hout : (o' - s.center).normSq - s.radiusSq ≤ 0
  · exact .inl hout
  · have hreach := hm.2.resolve_left hout
    have hlength := hd.dot hd (hr.lengthSq hout) (hr'.lengthSq hout)
    have hslope := (hd.dot (.refl (o' - s.center)) (hr.slope hout) (hr'.slope hout)).of_eq
      (add_zero k)
    exact .inr (RootsReach.scaled hlength hslope (.refl _) (hr.roots hout) (hr'.roots hout)
      hreach)

end Sphere

namespace Span

variable {p p' q : Span (Binary f)} {o d d' lower upper : Binary f}

/-- Both ends are scaled. -/
structure Scaled (k : ℤ) (p p' : Span (Binary f)) : Prop where
  near : Binary.Scaled k p.near p'.near
  far : Binary.Scaled k p.far p'.far

/-- What is computed for one axis is in range. -/
structure AxisFits (o d lower upper : Binary f) : Prop where
  clear : IsClear d
  inverse : ¬ d.abs ≤ minPositive → DivFits 1 d
  lower : ¬ d.abs ≤ minPositive → MulFits (lower - o) (1 / d)
  upper : ¬ d.abs ≤ minPositive → MulFits (upper - o) (1 / d)

/-- A moving line gets between two faces at a parameter that is divided by the power, and out again
at such a parameter. -/
theorem enter_exit_scaled (hd : Binary.Scaled k d d') (h : AxisFits o d lower upper)
    (h' : AxisFits o d' lower upper) (hmoves : ¬ d.abs ≤ minPositive) :
    Binary.Scaled (-k) (enter o d lower upper) (enter o d' lower upper) ∧
      Binary.Scaled (-k) (exit o d lower upper) (exit o d' lower upper) := by
  have hmoves' := (not_congr (hd.still_iff h.clear h'.clear)).2 hmoves
  have hinverse := (Binary.Scaled.refl 1).div hd (Binary.Scaled.value_ne_zero hmoves)
    (h.inverse hmoves) (h'.inverse hmoves')
  have hlower := ((Binary.Scaled.refl (lower - o)).mul hinverse (h.lower hmoves)
    (h'.lower hmoves')).of_eq (k := -k) (by ring)
  have hupper := ((Binary.Scaled.refl (upper - o)).mul hinverse (h.upper hmoves)
    (h'.upper hmoves')).of_eq (k := -k) (by ring)
  have hswap := hupper.lt_iff hlower
  unfold enter exit
  by_cases hlt : (upper - o) * (1 / d) < (lower - o) * (1 / d)
  · rw [if_pos hlt, if_pos (hswap.2 hlt), if_pos hlt, if_pos (hswap.2 hlt)]
    exact ⟨hupper, hlower⟩
  · rw [if_neg hlt, if_neg (mt hswap.1 hlt), if_neg hlt, if_neg (mt hswap.1 hlt)]
    exact ⟨hlower, hupper⟩

/-- Clipping leaves a scaled span of a scaled one. -/
theorem Scaled.clip (hp : p.Scaled (-k) p') (hd : Binary.Scaled k d d')
    (h : AxisFits o d lower upper) (h' : AxisFits o d' lower upper)
    (e : p.clip o d lower upper = some q) :
    ∃ q', p'.clip o d' lower upper = some q' ∧ q.Scaled (-k) q' := by
  have hstill := hd.still_iff h.clear h'.clear
  by_cases hmoves : d.abs ≤ minPositive
  · rw [p.clip_of_still hmoves, Option.ite_none_left_eq_some, Option.some_inj] at e
    obtain ⟨hin, rfl⟩ := e
    exact ⟨p', by rw [p'.clip_of_still (hstill.2 hmoves), if_neg hin], hp⟩
  · obtain ⟨henter, hexit⟩ := enter_exit_scaled hd h h' hmoves
    rw [p.clip_of_moving hmoves, Option.ite_none_left_eq_some, Option.some_inj] at e
    obtain ⟨hle, rfl⟩ := e
    have hnear := hp.near.max henter
    have hfar := hp.far.min hexit
    refine ⟨⟨max p'.near (enter o d' lower upper), min p'.far (exit o d' lower upper)⟩, ?_,
      hnear, hfar⟩
    rw [p'.clip_of_moving (mt hstill.1 hmoves), if_neg (mt (hfar.lt_iff hnear).1 hle)]

end Span

namespace Box

variable {b : Box (Binary f)}

/-- What is computed for a box that is not empty and a ray is in range, on every axis. -/
def Resolves (b : Box (Binary f)) (r : Ray (Binary f)) : Prop :=
  b.isEmpty = false → ∀ i, Span.AxisFits (r.origin.coord i) (r.direction.coord i)
    (b.least.coord i) (b.greatest.coord i)

theorem meetsLine_of_scaled (h : r.Scaled k r') (hr : b.Resolves r) (hr' : b.Resolves r')
    (hm : b.meetsLine r.line = true) : b.meetsLine r'.line = true := by
  obtain ⟨o, d⟩ := r
  obtain ⟨o', d'⟩ := r'
  obtain ⟨rfl, hd⟩ := h
  rw [meetsLine, Bool.and_eq_true, Bool.not_eq_true', Option.isSome_iff_exists] at hm ⊢
  obtain ⟨hne, q, hq⟩ := hm
  obtain ⟨q1, q2, e1, e2, e3⟩ := clip_eq_some_iff.1 hq
  have hfits := hr hne
  have hfits' := hr' hne
  have h0 : (⟨0, infinity⟩ : Span (Binary f)).Scaled (-k) ⟨0, infinity⟩ := ⟨.zero, .infinity⟩
  obtain ⟨q1', e1', h1⟩ := h0.clip hd.x (hfits .x) (hfits' .x) e1
  obtain ⟨q2', e2', h2⟩ := h1.clip hd.y (hfits .y) (hfits' .y) e2
  obtain ⟨q', e3', -⟩ := h2.clip hd.z (hfits .z) (hfits' .z) e3
  exact ⟨hne, q', clip_eq_some_iff.2 ⟨q1', q2', e1', e2', e3'⟩⟩

end Box

/-! ## All shapes -/

theorem Ray.Scaled.symm (h : r.Scaled k r') : r'.Scaled (-k) r :=
  ⟨h.origin.symm, h.direction.x.symm, h.direction.y.symm, h.direction.z.symm⟩

namespace Shape

/-- What is computed for a shape and a ray is in range. Other shapes are not asked for rays. -/
def Resolves (r : Ray (Binary f)) : Shape (Binary f) → Prop
  | triangle t => t.Resolves r
  | plane pl => pl.Resolves r
  | sphere s => s.Resolves r
  | box b => b.Resolves r
  | _ => True

theorem meets?_of_resolves {x : Shape (Binary f)} (h : r.Scaled k r') (hr : x.Resolves r)
    (hr' : x.Resolves r') : x.meets? (.ray r') = x.meets? (.ray r) := by
  cases x with
  | triangle t =>
    exact congrArg some (Bool.eq_iff_iff.2 ⟨Triangle.isSome_hit?_of_scaled h.symm hr' hr,
      Triangle.isSome_hit?_of_scaled h hr hr'⟩)
  | plane pl => exact congrArg some (Plane.isSome_hit?_scaled h hr hr')
  | sphere s =>
    exact congrArg some (Bool.eq_iff_iff.2 ⟨Sphere.meetsLine_of_scaled h.symm hr' hr,
      Sphere.meetsLine_of_scaled h hr hr'⟩)
  | box b =>
    exact congrArg some (Bool.eq_iff_iff.2 ⟨Box.meetsLine_of_scaled h.symm hr' hr,
      Box.meetsLine_of_scaled h hr hr'⟩)
  | point _ => rfl
  | ray _ => rfl
  | segment _ => rfl

end Shape

end HitTest
