import HitTest.Proofs.Exact.Box
import HitTest.Proofs.Shape.Hull

/-!
# What bounding boxes cover (`Spatial::bounds`)

A box that grows goes on covering what it covers, and it covers what it is grown by. So the box
around points covers each of them and the union of boxes covers what one of them does, whatever else
is in it. The bounding boxes of a triangle and of a sphere cover all points of these: those of a
triangle are between its vertices, and those of a sphere are on no axis farther from the center than
the radius.
-/

namespace HitTest

variable {K : Type} [Field K] [LinearOrder K] {P : Exact.Params K}

namespace Exact

variable {lower upper : Exact P} {a b c u v x : K}

/-! ## Faces that move outwards -/

theorem Between.extend (h : Between lower upper x) (s : Exact P) :
    Between (min lower s) (max upper s) x :=
  ⟨le_trans (min_le_left _ _) h.1, le_trans h.2 (le_max_left _ _)⟩

theorem between_extend_self (lower upper : Exact P) (x : K) :
    Between (min lower (value x)) (max upper (value x)) x :=
  ⟨min_le_right _ _, le_max_right _ _⟩

theorem Between.extend_faces (h : Between lower upper x) (lower' upper' : Exact P) :
    Between (min (min lower' lower) upper) (max (max upper' lower) upper) x :=
  ⟨le_trans (le_trans (min_le_left _ _) (min_le_right _ _)) h.1,
    le_trans h.2 (le_max_right _ _)⟩

theorem Between.apart (h : Between lower upper x) : Apart lower upper := by
  constructor
  · rintro ⟨-, rfl⟩
    exact not_value_le_bottom h.2
  · rintro ⟨rfl, -⟩
    exact not_top_le_value h.1

/-! ## Weighted means -/

section Combine

variable [IsStrictOrderedRing K] (hu : 0 ≤ u) (hv : 0 ≤ v) (huv : u + v ≤ 1)

include hu hv huv

theorem le_combine {m : K} (ha : m ≤ a) (hb : m ≤ b) (hc : m ≤ c) :
    m ≤ a + (b - a) * u + (c - a) * v := by
  have h0 := mul_nonneg (sub_nonneg.2 huv) (sub_nonneg.2 ha)
  have h1 := mul_nonneg hu (sub_nonneg.2 hb)
  have h2 := mul_nonneg hv (sub_nonneg.2 hc)
  linarith

theorem combine_le {m : K} (ha : a ≤ m) (hb : b ≤ m) (hc : c ≤ m) :
    a + (b - a) * u + (c - a) * v ≤ m := by
  have h0 := mul_nonneg (sub_nonneg.2 huv) (sub_nonneg.2 ha)
  have h1 := mul_nonneg hu (sub_nonneg.2 hb)
  have h2 := mul_nonneg hv (sub_nonneg.2 hc)
  linarith

/-- Between the faces there are also the weighted means of what is between them. -/
theorem Between.combine (ha : Between lower upper a) (hb : Between lower upper b)
    (hc : Between lower upper c) : Between lower upper (a + (b - a) * u + (c - a) * v) := by
  constructor
  · cases lower with
    | bottom => exact bottom_le _
    | value m =>
      simp only [Between, value_le_value] at ha hb hc ⊢
      exact le_combine hu hv huv ha.1 hb.1 hc.1
    | top => exact absurd ha.1 not_top_le_value
  · cases upper with
    | bottom => exact absurd ha.2 not_value_le_bottom
    | value m =>
      simp only [Between, value_le_value] at ha hb hc ⊢
      exact combine_le hu hv huv ha.2 hb.2 hc.2
    | top => exact le_top _

end Combine

end Exact

/-! ## Boxes that grow -/

namespace Box

open Exact

variable {b c : Box (Exact P)} {q : Vec3 K} {s : Step (Exact P)}

theorem covers_iff_coord :
    b.Covers q ↔ ∀ i, Between (b.least.coord i) (b.greatest.coord i) (q.coord i) := by
  rw [Axis.forall_iff]
  rfl

theorem Covers.isEmpty_eq_false (h : b.Covers q) : b.isEmpty = false := by
  obtain ⟨hx, hy, hz⟩ := h
  exact (isEmpty_eq_false_iff b).2
    ⟨le_trans hx.1 hx.2, le_trans hy.1 hy.2, le_trans hz.1 hz.2⟩

theorem Covers.isProper (h : b.Covers q) : b.IsProper := ⟨h.1.apart, h.2.1.apart, h.2.2.apart⟩

/-- What a step grows a box by covers a point. -/
def Step.Covers (q : Vec3 K) : Step (Exact P) → Prop
  | point p => p = q.map value
  | box c => c.Covers q

theorem Covers.expandBy (h : b.Covers q) (p : Vec3 (Exact P)) : (b.expandBy p).Covers q :=
  ⟨h.1.extend p.x, h.2.1.extend p.y, h.2.2.extend p.z⟩

theorem Covers.expandByBox (h : b.Covers q) (c : Box (Exact P)) : (b.expandByBox c).Covers q := by
  rw [Box.expandByBox]
  split
  · exact h
  · exact (h.expandBy c.least).expandBy c.greatest

theorem covers_expandBy (b : Box (Exact P)) (q : Vec3 K) : (b.expandBy (q.map value)).Covers q :=
  ⟨between_extend_self _ _ _, between_extend_self _ _ _, between_extend_self _ _ _⟩

theorem covers_expandByBox (b : Box (Exact P)) (h : c.Covers q) : (b.expandByBox c).Covers q := by
  rw [expandByBox, if_neg (by simp [h.isEmpty_eq_false])]
  exact ⟨h.1.extend_faces _ _, h.2.1.extend_faces _ _, h.2.2.extend_faces _ _⟩

theorem Covers.grow (h : b.Covers q) (s : Step (Exact P)) : (b.grow s).Covers q := by
  cases s with
  | point p => exact h.expandBy p
  | box c => exact h.expandByBox c

theorem covers_grow (b : Box (Exact P)) (h : s.Covers q) : (b.grow s).Covers q := by
  cases s with
  | point p =>
    obtain rfl : p = q.map value := h
    exact covers_expandBy b q
  | box c => exact covers_expandByBox b h

/-- After a run a box covers what it covered before, and what one of the steps covers. -/
theorem covers_foldl_grow (steps : List (Step (Exact P)))
    (h : b.Covers q ∨ ∃ s ∈ steps, s.Covers q) : (steps.foldl grow b).Covers q := by
  induction steps generalizing b with
  | nil => simpa using h
  | cons s steps ih =>
    rw [List.foldl_cons]
    apply ih
    rcases h with h | ⟨t, ht, hq⟩
    · exact .inl (h.grow s)
    · rcases List.mem_cons.1 ht with rfl | ht
      · exact .inl (covers_grow b hq)
      · exact .inr ⟨t, ht, hq⟩

theorem covers_union {bs : List (Box (Exact P))} (hb : b ∈ bs) (h : b.Covers q) :
    (union bs).Covers q := by
  rw [union_eq_hull]
  exact covers_foldl_grow _ (.inr ⟨.box b, List.mem_map_of_mem hb, h⟩)

theorem covers_ofPoints {ps : List (Vec3 (Exact P))} (hq : q.map value ∈ ps) :
    (ofPoints ps).Covers q := by
  rw [ofPoints_eq_hull]
  exact covers_foldl_grow _ (.inr ⟨.point (q.map value), List.mem_map_of_mem hq, rfl⟩)

/-! ## Points that are covered -/

theorem contains_map_iff : b.contains (q.map value) = true ↔ b.Covers q := by
  rw [contains_iff_coord, covers_iff_coord]
  apply forall_congr'
  intro i
  rw [not_lt, not_lt]
  cases i <;> rfl

/-- Boxes that cover the same point meet. -/
theorem meetsBox_of_covers (hb : b.Covers q) (hc : c.Covers q) : b.meetsBox c = true := by
  simp only [meetsBox, hb.isEmpty_eq_false, hc.isEmpty_eq_false, Bool.not_false, Bool.true_and,
    Bool.and_eq_true, decide_eq_true_eq]
  obtain ⟨bx, byy, bz⟩ := hb
  obtain ⟨cx, cy, cz⟩ := hc
  exact ⟨⟨⟨⟨⟨le_trans bx.1 cx.2, le_trans cx.1 bx.2⟩, le_trans byy.1 cy.2⟩, le_trans cy.1 byy.2⟩,
    le_trans bz.1 cz.2⟩, le_trans cz.1 bz.2⟩

end Box

/-! ## Spheres of elements -/

@[simp] theorem Vec3.distSq_map (a b : Vec3 K) : (a.map Exact.value).distSq (b.map Exact.value) =
    (Exact.value (a.distSq b) : Exact P) := by
  simp [distSq]

namespace Sphere

variable {s : Sphere K}

@[simp] theorem center_map :
    (s.map (Exact.value : K → Exact P)).center = s.center.map Exact.value := by rfl

@[simp] theorem radius_map :
    (s.map (Exact.value : K → Exact P)).radius = Exact.value s.radius := by rfl

@[simp] theorem radiusSq_map :
    (s.map (Exact.value : K → Exact P)).radiusSq = Exact.value s.radiusSq := by rfl

theorem isEmpty_map_eq_false_iff :
    (s.map (Exact.value : K → Exact P)).isEmpty = false ↔ 0 ≤ s.radius := by
  simp [isEmpty]

end Sphere

variable [IsStrictOrderedRing K] {q : Vec3 K}

/-! ## Bounding boxes of shapes -/

theorem Triangle.covers_bounds (t : Triangle K) {u v : K} (hu : 0 ≤ u) (hv : 0 ≤ v)
    (huv : u + v ≤ 1) : (t.map (Exact.value : K → Exact P)).bounds.Covers (t.pointAt u v) := by
  have h0 : (t.map (Exact.value : K → Exact P)).bounds.Covers t.v0 :=
    Box.covers_ofPoints (by simp [map])
  have h1 : (t.map (Exact.value : K → Exact P)).bounds.Covers t.v1 :=
    Box.covers_ofPoints (by simp [map])
  have h2 : (t.map (Exact.value : K → Exact P)).bounds.Covers t.v2 :=
    Box.covers_ofPoints (by simp [map])
  exact ⟨h0.1.combine hu hv huv h1.1 h2.1, h0.2.1.combine hu hv huv h1.2.1 h2.2.1,
    h0.2.2.combine hu hv huv h1.2.2 h2.2.2⟩

/-- A point at most the radius away is also on every axis at most the radius away. -/
theorem Sphere.covers_bounds {s : Sphere K} (hr : 0 ≤ s.radius)
    (h : s.center.distSq q ≤ s.radiusSq) :
    (s.map (Exact.value : K → Exact P)).bounds.Covers q := by
  have hx := mul_self_nonneg (q.x - s.center.x)
  have hy := mul_self_nonneg (q.y - s.center.y)
  have hz := mul_self_nonneg (q.z - s.center.z)
  simp only [Vec3.distSq, Vec3.normSq, Vec3.dot, Vec3.sub_x, Vec3.sub_y, Vec3.sub_z,
    radiusSq] at h
  have axis : ∀ {o x : K}, (x - o) * (x - o) ≤ s.radius * s.radius →
      Exact.Between (Exact.value o - Exact.value s.radius : Exact P)
        (Exact.value o + Exact.value s.radius) x := by
    intro o x hle
    rw [← pow_two, ← pow_two] at hle
    obtain ⟨h1, h2⟩ := abs_le_of_sq_le_sq' hle hr
    simp only [Exact.Between, Exact.sub_value, Exact.add_value, Exact.value_le_value]
    constructor <;> linarith
  rw [bounds, isEmpty_map_eq_false_iff.2 hr, if_neg Bool.false_ne_true]
  exact ⟨axis (by linarith), axis (by linarith), axis (by linarith)⟩

end HitTest
