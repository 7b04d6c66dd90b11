import HitTest.Proofs.Exact.Scalar
import HitTest.Proofs.Vec3
import HitTest.Query.Any
import HitTest.Trial.Comparison

/-!
# Exact vectors and lines

Vectors, segments and rays over an ordered field, and what they are as shapes of exact scalars. A
probe has a point at every parameter; the parameters from zero on, up to one for a segment, are its
domain.
-/

namespace HitTest

variable {S T : Type}

/-! ## Vectors -/

namespace Vec3

variable {K : Type} [Field K] [LinearOrder K] {P : Exact.Params K} (a b : Vec3 K) (s : K)

@[simp] theorem map_add_map : a.map Exact.value + b.map Exact.value =
    ((a + b).map Exact.value : Vec3 (Exact P)) := by rfl

@[simp] theorem map_sub_map : a.map Exact.value - b.map Exact.value =
    ((a - b).map Exact.value : Vec3 (Exact P)) := by
  ext <;> simp

@[simp] theorem map_mul_value : (a.map Exact.value : Vec3 (Exact P)) * (Exact.value s : Exact P) =
    ((a * s).map Exact.value : Vec3 (Exact P)) := by rfl

@[simp] theorem dot_map : (a.map Exact.value).dot (b.map Exact.value) =
    (Exact.value (a.dot b) : Exact P) := by rfl

@[simp] theorem cross_map : (a.map Exact.value).cross (b.map Exact.value) =
    ((a.cross b).map Exact.value : Vec3 (Exact P)) := by
  ext <;> simp [cross]

@[simp] theorem normSq_map : (a.map Exact.value).normSq = (Exact.value a.normSq : Exact P) := by rfl

variable {a} [IsStrictOrderedRing K]

theorem zero_le_normSq (a : Vec3 K) : 0 ≤ a.normSq :=
  add_nonneg (add_nonneg (mul_self_nonneg _) (mul_self_nonneg _)) (mul_self_nonneg _)

/-- Only the zero vector has no length. -/
theorem normSq_pos (ha : a ≠ 0) : 0 < a.normSq := by
  have hx := mul_self_nonneg a.x
  have hy := mul_self_nonneg a.y
  have hz := mul_self_nonneg a.z
  by_contra hle
  simp only [normSq, dot] at hle
  have ex : a.x = 0 := mul_self_eq_zero.1 (by linarith)
  have ey : a.y = 0 := mul_self_eq_zero.1 (by linarith)
  have ez : a.z = 0 := mul_self_eq_zero.1 (by linarith)
  exact ha (Vec3.ext ex ey ez)

theorem eq_zero_of_normSq_nonpos (ha : a.normSq ≤ 0) : a = 0 := by
  by_contra hne
  exact ha.not_gt (normSq_pos hne)

end Vec3

/-! ## Shapes -/

/-- The triangle with a function applied to every scalar. -/
def Triangle.map (g : S → T) (t : Triangle S) : Triangle T := ⟨t.v0.map g, t.v1.map g, t.v2.map g⟩

/-- The sphere with a function applied to every scalar. -/
def Sphere.map (g : S → T) (s : Sphere S) : Sphere T := ⟨s.center.map g, g s.radius⟩

/-- The box with a function applied to every scalar. -/
def Box.map (g : S → T) (b : Box S) : Box T := ⟨b.least.map g, b.greatest.map g⟩

namespace Probe

/-- The probe with a function applied to every scalar. -/
def map (g : S → T) : Probe S → Probe T
  | segment s => segment ⟨s.start.map g, s.finish.map g⟩
  | ray r => ray ⟨r.origin.map g, r.direction.map g⟩

/-- The shape that is queried with. -/
def shape : Probe S → Shape S
  | segment s => .segment s
  | ray r => .ray r

/-- Where a probe starts. -/
def origin : Probe S → Vec3 S
  | segment s => s.start
  | ray r => r.origin

/-- Where a probe leads. -/
def direction [Sub S] : Probe S → Vec3 S
  | segment s => s.direction
  | ray r => r.direction

/-- The point at a parameter. -/
def pointAt [Add S] [Sub S] [Mul S] (p : Probe S) (s : S) : Vec3 S := p.origin + p.direction * s

/-- The parameters of the points of a probe. -/
def InDomain [Zero S] [One S] [LE S] : Probe S → S → Prop
  | segment _, s => 0 ≤ s ∧ s ≤ 1
  | ray _, s => 0 ≤ s

section Exact

variable {K : Type} [Field K] [LinearOrder K] {P : Exact.Params K} (p : Probe K) (s : K)

@[simp] theorem line_map_origin :
    (p.map Exact.value).line.origin = (p.origin.map Exact.value : Vec3 (Exact P)) := by
  cases p <;> rfl

@[simp] theorem line_map_direction :
    (p.map Exact.value).line.direction = (p.direction.map Exact.value : Vec3 (Exact P)) := by
  cases p with
  | segment s => exact Vec3.map_sub_map _ _
  | ray r => rfl

/-- A line is present at the parameters of the domain. -/
theorem inDomain_iff : p.InDomain s ↔
    (0 : Exact P) ≤ Exact.value s ∧
      Exact.value s ≤ (p.map (Exact.value : K → Exact P)).line.maxParam := by
  cases p with
  | segment g => simp [InDomain, line, map, Segment.line]
  | ray r => simp [InDomain, line, map, Ray.line]

theorem containsParam_iff : (p.map (Exact.value : K → Exact P)).line.containsParam
    (Exact.value s) = true ↔ p.InDomain s := by
  rw [p.inDomain_iff (P := P)]
  simp [Line.containsParam]

variable [IsStrictOrderedRing K]

theorem zero_le_maxParam :
    (0 : Exact P) ≤ (p.map (Exact.value : K → Exact P)).line.maxParam := by
  cases p with
  | segment g => simp [line, map, Segment.line]
  | ray r => simp [line, map, Ray.line]

/-- Part of a probe lies between two parameters if it does not end before the first one and the
second one is not before its start. -/
theorem exists_inDomain_iff {near far : K} (hle : near ≤ far) :
    (∃ x, p.InDomain x ∧ near ≤ x ∧ x ≤ far) ↔
      Exact.value near ≤ (p.map (Exact.value : K → Exact P)).line.maxParam ∧ 0 ≤ far := by
  simp only [p.inDomain_iff (P := P), Exact.zero_eq, Exact.value_le_value]
  constructor
  · rintro ⟨x, ⟨h0, hmax⟩, hnear, hfar⟩
    exact ⟨le_trans (Exact.value_le_value.2 hnear) hmax, h0.trans hfar⟩
  · rintro ⟨hnear, hfar⟩
    -- the later one of the start and the first parameter
    refine ⟨max 0 near, ⟨le_max_left _ _, ?_⟩, le_max_right _ _, max_le hfar hle⟩
    rcases max_choice 0 near with h | h
    · rw [h]
      exact p.zero_le_maxParam
    · rw [h]
      exact hnear

end Exact

end Probe

end HitTest
