import HitTest.Proofs.Exact.Probe

/-!
# The sphere query is exact (`intersect_line_with_sphere`)

The points of a line that are in a sphere are those whose parameter makes a quadratic polynomial not
positive. If it is positive at zero, that is between its roots, and the part of the line that is
present gets there if it does not end before the nearer root or lie past the farther one.
-/

namespace HitTest

/-- Completing the square decides the sign of a quadratic polynomial that opens upwards. -/
theorem quadratic_nonpos_iff_sq_le {a b c x : ℝ} (ha : 0 < a) :
    a * x ^ 2 + 2 * b * x + c ≤ 0 ↔ (a * x + b) ^ 2 ≤ b * b - a * c := by
  have hsq : a * (a * x ^ 2 + 2 * b * x + c) = (a * x + b) ^ 2 - (b * b - a * c) := by ring
  rw [← not_lt, ← not_lt, ← mul_pos_iff_of_pos_left ha, hsq, sub_pos]

/-- Such a polynomial is not positive between its roots, if it has any. -/
theorem quadratic_nonpos_iff {a b c x : ℝ} (ha : 0 < a) (hd : 0 ≤ b * b - a * c) :
    a * x ^ 2 + 2 * b * x + c ≤ 0 ↔
      (-b - √(b * b - a * c)) / a ≤ x ∧ x ≤ (-b + √(b * b - a * c)) / a := by
  rw [quadratic_nonpos_iff_sq_le ha, Real.sq_le hd, div_le_iff₀ ha, le_div_iff₀ ha]
  constructor
  · rintro ⟨h1, h2⟩
    constructor <;> linarith
  · rintro ⟨h1, h2⟩
    constructor <;> linarith

namespace Sphere

variable (s : Sphere ℝ) (p : Probe ℝ) {ε τ : ℝ} {h : 0 < τ}

/-- How far the squared distance of a point of a line exceeds the squared radius. -/
theorem distSq_sub_radiusSq (x : ℝ) : s.center.distSq (p.pointAt x) - s.radiusSq =
    p.direction.normSq * x ^ 2 + 2 * p.direction.dot (p.origin - s.center) * x +
      ((p.origin - s.center).normSq - s.radiusSq) := by
  simp only [Vec3.distSq, Vec3.normSq, Vec3.dot, Probe.pointAt, Vec3.sub_x, Vec3.sub_y, Vec3.sub_z,
    Vec3.add_x, Vec3.add_y, Vec3.add_z, Vec3.mul_x, Vec3.mul_y, Vec3.mul_z]
  ring

/-- A line without direction has only one point. -/
theorem dot_eq_zero_of_normSq_nonpos {a : Vec3 ℝ} (ha : a.normSq ≤ 0) (b : Vec3 ℝ) :
    a.normSq = 0 ∧ a.dot b = 0 := by
  obtain rfl := Vec3.eq_zero_of_normSq_nonpos ha
  simp [Vec3.normSq, Vec3.dot]

/-- The query in terms of the coefficients of the polynomial. -/
theorem contact_map {a b c : ℝ} (ha : p.direction.normSq = a)
    (hb : p.direction.dot (p.origin - s.center) = b)
    (hc : (p.origin - s.center).normSq - s.radiusSq = c) :
    (s.map Exact.value).contact (p.map Exact.value).line =
      (if s.radius < 0 then .nothing
      else if c ≤ 0 then .inside
      else if a ≤ 0 then .degenerate
      else if b * b - a * c < 0 then .apart
      else .through (.value ((-b - √(b * b - a * c)) / a)) (.value ((-b + √(b * b - a * c)) / a)) :
        Contact (Exact (.real ε τ h))) := by
  subst ha hb hc
  simp [contact, isEmpty, map, radiusSq]

section

variable {s p}

/-- A line that meets a sphere starts in it, or is in it at a parameter between the roots. -/
theorem exists_of_meetsLine
    (hmeets : (s.map (Exact.value : ℝ → Exact (.real ε τ h))).meetsLine
      (p.map Exact.value).line = true) :
    0 ≤ s.radius ∧ ∃ x : ℝ, p.InDomain x ∧ s.center.distSq (p.pointAt x) ≤ s.radiusSq := by
  simp only [← sub_nonpos (a := s.center.distSq _), distSq_sub_radiusSq]
  rw [meetsLine, contact_map s p rfl rfl rfl] at hmeets
  generalize p.direction.normSq = a at hmeets ⊢
  generalize p.direction.dot (p.origin - s.center) = b at hmeets ⊢
  generalize (p.origin - s.center).normSq - s.radiusSq = c at hmeets ⊢
  split_ifs at hmeets with hr hc ha hd
  · cases hmeets
  · have hstart : p.InDomain 0 := by
      rw [p.inDomain_iff (P := .real ε τ h)]
      exact ⟨le_refl _, p.zero_le_maxParam⟩
    exact ⟨not_lt.1 hr, 0, hstart, by simpa using hc⟩
  · cases hmeets
  · cases hmeets
  · have ha0 : 0 < a := not_le.1 ha
    have hroots : (-b - √(b * b - a * c)) / a ≤ (-b + √(b * b - a * c)) / a :=
      div_le_div_of_nonneg_right (by linarith [Real.sqrt_nonneg (b * b - a * c)]) ha0.le
    simp only [Contact.isHit, Bool.and_eq_true, decide_eq_true_eq, Exact.zero_eq,
      Exact.value_le_value] at hmeets
    obtain ⟨x, hx, hbetween⟩ := (p.exists_inDomain_iff hroots).2 hmeets
    exact ⟨not_lt.1 hr, x, hx, (quadratic_nonpos_iff ha0 (not_lt.1 hd)).2 hbetween⟩

/-- A line that has a point in a sphere starts there, or the point is between the roots. -/
theorem meetsLine_of_distSq_le (hr : 0 ≤ s.radius) {x : ℝ} (hx : p.InDomain x)
    (hle : s.center.distSq (p.pointAt x) ≤ s.radiusSq) :
    (s.map (Exact.value : ℝ → Exact (.real ε τ h))).meetsLine (p.map Exact.value).line = true := by
  have hdegenerate : p.direction.normSq ≤ 0 →
      p.direction.normSq = 0 ∧ p.direction.dot (p.origin - s.center) = 0 := fun ha =>
    dot_eq_zero_of_normSq_nonpos ha _
  rw [← sub_nonpos, distSq_sub_radiusSq] at hle
  rw [meetsLine, contact_map s p rfl rfl rfl]
  generalize p.direction.normSq = a at hdegenerate hle ⊢
  generalize p.direction.dot (p.origin - s.center) = b at hdegenerate hle ⊢
  generalize (p.origin - s.center).normSq - s.radiusSq = c at hle ⊢
  split_ifs with hempty hc ha hd
  · exact absurd hr hempty.not_ge
  · rfl
  · obtain ⟨rfl, rfl⟩ := hdegenerate ha
    exact absurd (by simpa using hle) hc
  · rw [quadratic_nonpos_iff_sq_le (not_le.1 ha)] at hle
    linarith [sq_nonneg (a * x + b)]
  · have hbetween := (quadratic_nonpos_iff (not_le.1 ha) (not_lt.1 hd)).1 hle
    have hmeets := (p.exists_inDomain_iff (P := .real ε τ h)
      (hbetween.1.trans hbetween.2)).1 ⟨x, hx, hbetween⟩
    simpa [Contact.isHit] using hmeets

end

/-- A ray or segment meets a sphere if and only if the radius is not below zero and some point of it
is at most the radius away from the center (`intersect_line_with_sphere`). -/
theorem meetsLine_iff_distSq :
    (s.map (Exact.value : ℝ → Exact (.real ε τ h))).meetsLine (p.map Exact.value).line = true ↔
      0 ≤ s.radius ∧ ∃ x : ℝ, p.InDomain x ∧ s.center.distSq (p.pointAt x) ≤ s.radiusSq := by
  constructor
  · exact exists_of_meetsLine
  · rintro ⟨hr, x, hx, hle⟩
    exact meetsLine_of_distSq_le hr hx hle

/-- A ray that only touches a sphere meets it. -/
theorem meetsLine_iff_distSq_tangent :
    (Sphere.map Exact.value ⟨⟨0, 0, 0⟩, 1⟩ :
        Sphere (Exact (.real 1 (1 / 2) one_half_pos))).meetsLine
      (Probe.map Exact.value (.ray ⟨⟨-2, 1, 0⟩, ⟨1, 0, 0⟩⟩)).line = true := by
  rw [meetsLine_iff_distSq]
  refine ⟨zero_le_one, 2, ?_⟩
  norm_num [Probe.InDomain, Probe.pointAt, Probe.origin, Probe.direction, Vec3.distSq, Vec3.normSq,
    Vec3.dot, radiusSq]

end Sphere

end HitTest
