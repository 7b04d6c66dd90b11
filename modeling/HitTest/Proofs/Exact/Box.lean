import HitTest.Proofs.Exact.Probe
import HitTest.Proofs.Query.Slab

/-!
# The slab test is exact (`intersect_line_with_aabb`)

A span of parameters stands for the parameters between its ends. Clipping it by an axis leaves
exactly those at which the line is between the faces of that axis, so after three axes it stands for
the parameters at which the line is in the box. Its near end is always one of them, unless it was
found that there is none.
-/

namespace HitTest

variable {K : Type} [Field K] [LinearOrder K] {P : Exact.Params K}

/-- The parameters that a span stands for. -/
def Span.Holds (r : Span (Exact P)) (s : K) : Prop :=
  r.near ≤ Exact.value s ∧ Exact.value s ≤ r.far

namespace Exact

variable {lower upper : Exact P}

/-- A coordinate between two faces. -/
def Between (lower upper : Exact P) (x : K) : Prop := lower ≤ value x ∧ value x ≤ upper

/-- Two faces that are not at the same infinity. -/
def Apart (lower upper : Exact P) : Prop :=
  ¬ (lower = bottom ∧ upper = bottom) ∧ ¬ (lower = top ∧ upper = top)

/-- Between such faces there is something, unless they are the wrong way round. -/
theorem Apart.exists_between (h : Apart lower upper) (hle : lower ≤ upper) :
    ∃ x : K, Between lower upper x := by
  cases lower with
  | bottom =>
    cases upper with
    | bottom => exact absurd ⟨rfl, rfl⟩ h.1
    | value y => exact ⟨y, by simp [Between]⟩
    | top => exact ⟨0, by simp [Between]⟩
  | value x => exact ⟨x, by simp [Between, hle]⟩
  | top =>
    cases upper with
    | bottom => exact absurd hle not_top_le_bottom
    | value y => exact absurd hle not_top_le_value
    | top => exact absurd ⟨rfl, rfl⟩ h.2

end Exact

namespace Box

open Exact

/-- A point between the faces of every axis. -/
def Covers (b : Box (Exact P)) (q : Vec3 K) : Prop :=
  Between b.least.x b.greatest.x q.x ∧ Between b.least.y b.greatest.y q.y ∧
    Between b.least.z b.greatest.z q.z

/-- No axis has both faces at the same infinity, where no point is. -/
def IsProper (b : Box (Exact P)) : Prop :=
  Apart b.least.x b.greatest.x ∧ Apart b.least.y b.greatest.y ∧ Apart b.least.z b.greatest.z

theorem isProper_map (b : Box K) : (b.map (value : K → Exact P)).IsProper := by
  simp [IsProper, Apart, map]

theorem isProper_empty : (empty : Box (Exact P)).IsProper := by
  simp [IsProper, Apart, empty, Vec3.uniform]

theorem isEmpty_eq_false_iff (b : Box (Exact P)) : b.isEmpty = false ↔
    b.least.x ≤ b.greatest.x ∧ b.least.y ≤ b.greatest.y ∧ b.least.z ≤ b.greatest.z := by
  simp only [isEmpty, Bool.or_eq_false_iff, decide_eq_false_iff_not, not_lt, and_assoc]

end Box

variable [IsStrictOrderedRing K] {o d s : K} {a lower upper : Exact P}

/-! ## Where a line crosses a face -/

namespace Exact

/-- Going up, a line is past a face after the parameter at which it crosses it. -/
theorem crossing_le_of_pos (hd : 0 < d) :
    (a - value o) * (1 / value d) ≤ value s ↔ a ≤ value (o + d * s) := by
  have hinv : 0 < 1 / d := one_div_pos.2 hd
  rw [one_eq, div_value]
  cases a with
  | bottom => rw [bottom_sub_value, bottom_mul_of_pos hinv]; simp
  | value x =>
    rw [sub_value, mul_value, value_le_value, value_le_value, mul_one_div, div_le_iff₀ hd,
      sub_le_iff_le_add', mul_comm s d]
  | top => rw [top_sub_value, top_mul_of_pos hinv]; simp

theorem le_crossing_of_pos (hd : 0 < d) :
    value s ≤ (a - value o) * (1 / value d) ↔ value (o + d * s) ≤ a := by
  have hinv : 0 < 1 / d := one_div_pos.2 hd
  rw [one_eq, div_value]
  cases a with
  | bottom => rw [bottom_sub_value, bottom_mul_of_pos hinv]; simp
  | value x =>
    rw [sub_value, mul_value, value_le_value, value_le_value, mul_one_div, le_div_iff₀ hd,
      le_sub_iff_add_le', mul_comm s d]
  | top => rw [top_sub_value, top_mul_of_pos hinv]; simp

/-- Going down, it is the other way round. -/
theorem crossing_le_of_neg (hd : d < 0) :
    (a - value o) * (1 / value d) ≤ value s ↔ value (o + d * s) ≤ a := by
  have hinv : 1 / d < 0 := one_div_neg.2 hd
  rw [one_eq, div_value]
  cases a with
  | bottom => rw [bottom_sub_value, bottom_mul_of_neg hinv]; simp
  | value x =>
    rw [sub_value, mul_value, value_le_value, value_le_value, mul_one_div, div_le_iff_of_neg hd,
      le_sub_iff_add_le', mul_comm s d]
  | top => rw [top_sub_value, top_mul_of_neg hinv]; simp

theorem le_crossing_of_neg (hd : d < 0) :
    value s ≤ (a - value o) * (1 / value d) ↔ a ≤ value (o + d * s) := by
  have hinv : 1 / d < 0 := one_div_neg.2 hd
  rw [one_eq, div_value]
  cases a with
  | bottom => rw [bottom_sub_value, bottom_mul_of_neg hinv]; simp
  | value x =>
    rw [sub_value, mul_value, value_le_value, value_le_value, mul_one_div, le_div_iff_of_neg hd,
      sub_le_iff_le_add', mul_comm s d]
  | top => rw [top_sub_value, top_mul_of_neg hinv]; simp

end Exact

namespace Span

open Exact

/-- A moving line is between the faces from the parameter at which it enters to the one at which it
leaves. -/
theorem enter_exit_iff (hd : d ≠ 0) (hlu : lower ≤ upper) :
    (enter (value o) (value d) lower upper ≤ value s ∧
      value s ≤ exit (value o) (value d) lower upper) ↔ Between lower upper (o + d * s) := by
  have henter : enter (value o) (value d) lower upper =
      min ((lower - value o) * (1 / value d)) ((upper - value o) * (1 / value d)) := by
    rw [min_comm, min_def_lt]
    rfl
  have hexit : exit (value o) (value d) lower upper =
      max ((upper - value o) * (1 / value d)) ((lower - value o) * (1 / value d)) := by
    rw [max_def_lt]
    rfl
  have hlow : (lower ≤ value (o + d * s) ∨ upper ≤ value (o + d * s)) ↔
      lower ≤ value (o + d * s) := or_iff_left_of_imp fun h => le_trans hlu h
  have hup : (value (o + d * s) ≤ upper ∨ value (o + d * s) ≤ lower) ↔
      value (o + d * s) ≤ upper := or_iff_left_of_imp fun h => le_trans h hlu
  rw [henter, hexit, min_le_iff, le_max_iff, Between]
  -- going up the lower face is crossed first, going down the upper one
  rcases lt_or_gt_of_ne hd with hd | hd
  · rw [crossing_le_of_neg hd, crossing_le_of_neg hd, le_crossing_of_neg hd, le_crossing_of_neg hd,
      or_comm, hup, or_comm, hlow, and_comm]
  · rw [crossing_le_of_pos hd, crossing_le_of_pos hd, le_crossing_of_pos hd, le_crossing_of_pos hd,
      hlow, hup]

/-- Clipping leaves the parameters at which the line is between the faces. -/
theorem holds_clip_iff (r : Span (Exact P)) (hd : d = 0 ∨ P.minPositive < |d|)
    (hlu : lower ≤ upper) :
    (∃ r', r.clip (value o) (value d) lower upper = some r' ∧ r'.Holds s) ↔
      r.Holds s ∧ Between lower upper (o + d * s) := by
  rcases hd with rfl | hd
  · have hstill : Scalar.abs (value 0 : Exact P) ≤ Scalar.minPositive := by
      simpa using P.minPositive_pos.le
    rw [r.clip_of_still hstill, zero_mul, add_zero, Between]
    split
    · rename_i h
      rw [← not_le, ← not_le, ← not_and_or] at h
      simp [h]
    · rename_i h
      rw [not_or, not_lt, not_lt] at h
      simp [h]
  · have hmoves : ¬ Scalar.abs (value d : Exact P) ≤ Scalar.minPositive := by simpa using hd
    have hd0 : d ≠ 0 := abs_pos.1 (P.minPositive_pos.trans hd)
    rw [r.clip_of_moving hmoves, ← enter_exit_iff hd0 hlu]
    have hholds : ∀ e x : Exact P, (⟨max r.near e, min r.far x⟩ : Span (Exact P)).Holds s ↔
        r.Holds s ∧ e ≤ value s ∧ value s ≤ x := by
      intro e x
      rw [Holds, Holds, max_le_iff, le_min_iff]
      tauto
    split
    · -- what is left is empty, so no parameter was in the span and between the faces
      rename_i h
      simp only [reduceCtorEq, false_and, exists_false, false_iff]
      rw [← hholds]
      intro hs
      exact absurd (le_trans hs.1 hs.2) (not_le.2 h)
    · simp [hholds]

/-- A span that has its near end in it. -/
def IsStarted (r : Span (Exact P)) : Prop := ∃ n : K, r.near = value n ∧ value n ≤ r.far

/-- An axis with a coordinate between its faces leaves a span its start, or nothing. -/
theorem IsStarted.clip {r r' : Span (Exact P)} (hr : r.IsStarted)
    (hd : d = 0 ∨ P.minPositive < |d|) (hlu : ∃ x : K, Between lower upper x)
    (h : r.clip (value o) (value d) lower upper = some r') : r'.IsStarted := by
  obtain ⟨n, hn, hfar⟩ := hr
  obtain ⟨x, hx⟩ := hlu
  rcases hd with rfl | hd
  · have hstill : Scalar.abs (value 0 : Exact P) ≤ Scalar.minPositive := by
      simpa using P.minPositive_pos.le
    rw [r.clip_of_still hstill, Option.ite_none_left_eq_some, Option.some_inj] at h
    obtain ⟨-, rfl⟩ := h
    exact ⟨n, hn, hfar⟩
  · have hmoves : ¬ Scalar.abs (value d : Exact P) ≤ Scalar.minPositive := by simpa using hd
    have hd0 : d ≠ 0 := abs_pos.1 (P.minPositive_pos.trans hd)
    rw [r.clip_of_moving hmoves, Option.ite_none_left_eq_some, Option.some_inj] at h
    obtain ⟨hle, rfl⟩ := h
    have henter : enter (value o) (value d) lower upper ≤ value ((x - o) / d) := by
      refine ((enter_exit_iff hd0 (le_trans hx.1 hx.2)).2 ?_).1
      rwa [mul_div_cancel₀ _ hd0, add_sub_cancel]
    have hnear : max r.near (enter (value o) (value d) lower upper) ≤
        value (max n ((x - o) / d)) := by
      rw [hn]
      exact max_le (value_le_value.2 (le_max_left _ _))
        (le_trans henter (value_le_value.2 (le_max_right _ _)))
    have hle' : value n ≤ max r.near (enter (value o) (value d) lower upper) := by
      rw [hn]
      exact le_max_left _ _
    obtain ⟨m, hm⟩ := exists_eq_value hle' hnear
    exact ⟨m, hm, by rw [← hm]; exact not_lt.1 hle⟩

end Span

/-! ## Three axes -/

namespace Box

open Exact

variable {b : Box (Exact P)} {p : Probe K}

/-- Clipping a line by all axes leaves the parameters at which it is in the box. -/
theorem holds_clip_iff (hdir : p.direction.All fun d => d = 0 ∨ P.minPositive < |d|)
    (hne : b.isEmpty = false) :
    (∃ r, b.clip (p.map Exact.value).line = some r ∧ r.Holds s) ↔
      p.InDomain s ∧ b.Covers (p.pointAt s) := by
  obtain ⟨hx, hy, hz⟩ := hdir
  obtain ⟨hbx, hby, hbz⟩ := (isEmpty_eq_false_iff b).1 hne
  rw [p.inDomain_iff (P := P)]
  simp only [clip_eq_some_iff, Probe.line_map_origin, Probe.line_map_direction, Vec3.map_x,
    Vec3.map_y, Vec3.map_z]
  constructor
  · rintro ⟨r, ⟨r1, r2, e1, e2, e3⟩, h⟩
    obtain ⟨h2, inz⟩ := (Span.holds_clip_iff r2 hz hbz).1 ⟨r, e3, h⟩
    obtain ⟨h1, iny⟩ := (Span.holds_clip_iff r1 hy hby).1 ⟨r2, e2, h2⟩
    obtain ⟨h0, inx⟩ := (Span.holds_clip_iff _ hx hbx).1 ⟨r1, e1, h1⟩
    exact ⟨h0, inx, iny, inz⟩
  · rintro ⟨h0, inx, iny, inz⟩
    obtain ⟨r1, e1, h1⟩ := (Span.holds_clip_iff ⟨0, _⟩ hx hbx).2 ⟨h0, inx⟩
    obtain ⟨r2, e2, h2⟩ := (Span.holds_clip_iff r1 hy hby).2 ⟨h1, iny⟩
    obtain ⟨r, e3, h⟩ := (Span.holds_clip_iff r2 hz hbz).2 ⟨h2, inz⟩
    exact ⟨r, ⟨r1, r2, e1, e2, e3⟩, h⟩

/-- What is left of a line by all axes of a box still has its near end. -/
theorem isStarted_of_clip (hdir : p.direction.All fun d => d = 0 ∨ P.minPositive < |d|)
    (hb : b.IsProper) (hne : b.isEmpty = false) {r : Span (Exact P)}
    (h : b.clip (p.map Exact.value).line = some r) : r.IsStarted := by
  obtain ⟨hx, hy, hz⟩ := hdir
  obtain ⟨hbx, hby, hbz⟩ := (isEmpty_eq_false_iff b).1 hne
  have h0 : Span.IsStarted (⟨0, (p.map Exact.value).line.maxParam⟩ : Span (Exact P)) :=
    ⟨0, rfl, p.zero_le_maxParam⟩
  rw [clip_eq_some_iff, Probe.line_map_origin, Probe.line_map_direction] at h
  obtain ⟨r1, r2, e1, e2, e3⟩ := h
  have h1 := h0.clip hx (hb.1.exists_between hbx) e1
  have h2 := h1.clip hy (hb.2.1.exists_between hby) e2
  exact h2.clip hz (hb.2.2.exists_between hbz) e3

theorem meetsLine_iff_of_isProper (hb : b.IsProper)
    (hdir : p.direction.All fun d => d = 0 ∨ P.minPositive < |d|) :
    b.meetsLine (p.map Exact.value).line = true ↔
      ∃ s : K, p.InDomain s ∧ b.Covers (p.pointAt s) := by
  rw [meetsLine, Bool.and_eq_true, Bool.not_eq_true', Option.isSome_iff_exists]
  constructor
  · rintro ⟨hne, r, hr⟩
    obtain ⟨n, hnear, hfar⟩ := isStarted_of_clip hdir hb hne hr
    exact ⟨n, (holds_clip_iff hdir hne).1 ⟨r, hr, le_of_eq hnear, hfar⟩⟩
  · rintro ⟨s, hs, hcov⟩
    obtain ⟨⟨hx1, hx2⟩, ⟨hy1, hy2⟩, hz1, hz2⟩ := id hcov
    have hne : b.isEmpty = false := (isEmpty_eq_false_iff b).2
      ⟨le_trans hx1 hx2, le_trans hy1 hy2, le_trans hz1 hz2⟩
    obtain ⟨r, hr, -⟩ := (holds_clip_iff hdir hne).2 ⟨hs, hcov⟩
    exact ⟨hne, r, hr⟩

/-- A ray or segment whose direction is on every axis zero or above the threshold meets a box if and
only if some point of it is between the faces of every axis (`intersect_line_with_aabb`). The
corners can be any points of the field, also the wrong way round. They can be infinite as well, like
those of the empty box, unless both faces of an axis are at the same infinity. -/
theorem meetsLine_iff_exists (p : Probe K)
    (hdir : p.direction.All fun d => d = 0 ∨ P.minPositive < |d|) :
    (∀ b : Box K, (b.map (value : K → Exact P)).meetsLine (p.map value).line = true ↔
      ∃ s : K, p.InDomain s ∧
        (b.least.x ≤ (p.pointAt s).x ∧ (p.pointAt s).x ≤ b.greatest.x) ∧
        (b.least.y ≤ (p.pointAt s).y ∧ (p.pointAt s).y ≤ b.greatest.y) ∧
        (b.least.z ≤ (p.pointAt s).z ∧ (p.pointAt s).z ≤ b.greatest.z)) ∧
    ∀ b : Box (Exact P), b.IsProper →
      (b.meetsLine (p.map value).line = true ↔ ∃ s : K, p.InDomain s ∧ b.Covers (p.pointAt s)) := by
  constructor
  · intro b
    rw [meetsLine_iff_of_isProper (isProper_map b) hdir]
    simp only [Covers, Between, map, Vec3.map_x, Vec3.map_y, Vec3.map_z, value_le_value]
  · intro b hb
    exact meetsLine_iff_of_isProper hb hdir

/-- A ray along the first axis meets a box on its way, and not the empty box. -/
theorem meetsLine_iff_exists_ray :
    (Box.map value ⟨⟨0, 0, 4⟩, ⟨1, 1, 6⟩⟩ : Box (Exact (.real 1 (1 / 2) one_half_pos))).meetsLine
      (Probe.map value (.ray ⟨⟨-1, 1 / 2, 5⟩, ⟨1, 0, 0⟩⟩)).line = true ∧
    ¬ (empty : Box (Exact (.real 1 (1 / 2) one_half_pos))).meetsLine
      (Probe.map value (.ray ⟨⟨-1, 1 / 2, 5⟩, ⟨1, 0, 0⟩⟩)).line = true := by
  have h := meetsLine_iff_exists (P := .real 1 (1 / 2) one_half_pos)
    (.ray ⟨⟨-1, 1 / 2, 5⟩, ⟨1, 0, 0⟩⟩) ⟨.inr (by norm_num [Probe.direction]), .inl rfl, .inl rfl⟩
  constructor
  · rw [h.1]
    refine ⟨1, ?_⟩
    norm_num [Probe.InDomain, Probe.pointAt, Probe.origin, Probe.direction]
  · rw [h.2 empty isProper_empty]
    rintro ⟨s, -, hx, -⟩
    simp [Between, empty, Vec3.uniform] at hx

end Box

end HitTest
