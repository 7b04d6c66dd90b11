import HitTest.Proofs.Query.Slab
import HitTest.Query.Any

/-!
# Where a line starts

A solid that contains the start of a ray or segment meets it, wherever it leads, and a line that
leads nowhere meets a solid only if it starts inside. The queries for lines subtract, divide and
multiply where the query for a point only compares. A difference has the sign that the order says,
also when it is rounded, so a start that is inside is never lost, and a start that is outside is
never taken for inside.
-/

namespace HitTest

open Binary

variable {f : Format}

/-! ## Zeros -/

namespace Binary

variable {x y : Binary f}

/-- One of the two zeros. -/
def IsZero (x : Binary f) : Prop := (x == 0) = true

theorem isZero_iff : x.IsZero ↔ x.isNumber = true ∧ x.value = 0 := by
  have hplace : x.value = 0 ↔ x.place = 0 := by
    rw [← f.valueAt_strictMono.injective.eq_iff, Format.valueAt_zero, value]
  rw [hplace]
  change x.eq 0 = true ↔ _
  rw [eq_iff]
  simp

theorem IsZero.isFinite (hx : x.IsZero) : x.IsFinite := by
  obtain ⟨hn, hv⟩ := isZero_iff.1 hx
  exact isFinite_of_abs_le_four hn (by rw [hv]; norm_num)

/-- What is rounded from zero is a zero. -/
theorem Rounds.isZero (h : Rounds 0 x) : x.IsZero :=
  isZero_iff.2 ⟨h.isNumber, le_antisymm (h.value_nonpos le_rfl) (h.value_nonneg le_rfl)⟩

theorem IsZero.add (hx : x.IsZero) (hy : y.IsZero) : (x + y).IsZero := by
  have h := rounds_add hx.isFinite hy.isFinite
  rw [(isZero_iff.1 hx).2, (isZero_iff.1 hy).2, add_zero] at h
  exact h.isZero

theorem IsZero.mul (hx : x.IsZero) (hy : y.IsZero) : (x * y).IsZero := by
  have h := rounds_mul hx.isFinite hy.isFinite
  rw [(isZero_iff.1 hx).2, (isZero_iff.1 hy).2, mul_zero] at h
  exact h.isZero

/-- A line does not move along an axis on which its direction is zero. -/
theorem IsZero.abs_le_minPositive (hx : x.IsZero) : Scalar.abs x ≤ Scalar.minPositive :=
  abs_le_minPositive_of_value_eq_zero (isZero_iff.1 hx).1 (isZero_iff.1 hx).2

end Binary

/-! ## Boxes -/

namespace Box

/-- Of a line that does not move everything is left, if it is a point between all faces. -/
theorem isSome_clip_of_still {S : Type} [Scalar S] (b : Box S) (l : Line S)
    (h : l.direction.All fun d => Scalar.abs d ≤ Scalar.minPositive) :
    (b.clip l).isSome = b.contains l.origin := by
  have still : ∀ {r r' : Span S} {o d lower upper : S}, Scalar.abs d ≤ Scalar.minPositive →
      (r.clip o d lower upper = some r' ↔ (¬ o < lower ∧ ¬ upper < o) ∧ r = r') := by
    intro r r' o d lower upper hd
    rw [r.clip_of_still hd, Option.ite_none_left_eq_some, Option.some_inj, not_or]
  obtain ⟨hx, hy, hz⟩ := h
  rw [Bool.eq_iff_iff, Option.isSome_iff_exists]
  simp only [clip_eq_some_iff, still hx, still hy, still hz, contains, excludes,
    Bool.not_eq_true', Bool.or_eq_false_iff, decide_eq_false_iff_not]
  constructor
  · rintro ⟨r, r1, r2, ⟨⟨x1, x2⟩, -⟩, ⟨⟨y1, y2⟩, -⟩, ⟨z1, z2⟩, -⟩
    exact ⟨⟨⟨⟨⟨x1, x2⟩, y1⟩, y2⟩, z1⟩, z2⟩
  · rintro ⟨⟨⟨⟨⟨x1, x2⟩, y1⟩, y2⟩, z1⟩, z2⟩
    exact ⟨_, _, _, ⟨⟨x1, x2⟩, rfl⟩, ⟨⟨y1, y2⟩, rfl⟩, ⟨z1, z2⟩, rfl⟩

variable {b : Box (Binary f)} {l : Line (Binary f)}

theorem meetsLine_of_still (hb : b.IsNumeric) (ho : l.origin.All (·.isNumber = true))
    (hd : l.direction.All IsZero) : b.meetsLine l = b.contains l.origin := by
  have hclip := isSome_clip_of_still b l (hd.mono fun _ h => h.abs_le_minPositive)
  rw [meetsLine, hclip]
  cases hin : b.contains l.origin with
  | false => rw [Bool.and_false]
  | true => rw [isEmpty_eq_false_of_contains hb ho hin]; rfl

end Box

/-! ## Spheres -/

namespace Sphere

variable {s : Sphere (Binary f)} {l : Line (Binary f)}

/-- The difference that tells whether a line starts inside has the sign that the order says. -/
theorem normSq_sub_radiusSq_nonpos_iff (hfin : s.radiusSq.IsFinite) (o : Vec3 (Binary f)) :
    (o - s.center).normSq - s.radiusSq ≤ 0 ↔ s.center.distSq o ≤ s.radiusSq := sub_nonpos_iff hfin

/-- A line starts inside if its start is contained. -/
theorem contact_eq_inside (hfin : s.radiusSq.IsFinite) (h : s.contains l.origin = true) :
    s.contact l = .inside := by
  obtain ⟨hne, hle⟩ := contains_iff.1 h
  rw [contact, hne, if_neg Bool.false_ne_true]
  exact if_pos ((normSq_sub_radiusSq_nonpos_iff hfin _).2 hle)

/-- A line that does not move has no more to offer than its start. -/
theorem contact_eq_degenerate (hr : 0 ≤ s.radius) (hfin : s.radiusSq.IsFinite)
    (hd : l.direction.All IsZero) (h : s.contains l.origin = false) :
    s.contact l = .degenerate := by
  have hnot : ¬ s.center.distSq l.origin ≤ s.radiusSq := by
    intro hle
    rw [contains_iff.2 ⟨isEmpty_eq_false hr, hle⟩] at h
    cases h
  have hzero : l.direction.normSq ≤ 0 := by
    obtain ⟨hx, hy, hz⟩ := hd
    have hn := isZero_iff.1 (((hx.mul hx).add (hy.mul hy)).add (hz.mul hz))
    exact nonpos_iff.2 ⟨hn.1, hn.2.le⟩
  rw [contact, isEmpty_eq_false hr, if_neg Bool.false_ne_true]
  dsimp only
  rw [if_neg (mt (normSq_sub_radiusSq_nonpos_iff hfin _).1 hnot), if_pos hzero]

theorem meetsLine_of_contains (hfin : s.radiusSq.IsFinite) (h : s.contains l.origin = true) :
    s.meetsLine l = true := by
  rw [meetsLine, contact_eq_inside hfin h]
  rfl

theorem meetsLine_of_still (hr : 0 ≤ s.radius) (hfin : s.radiusSq.IsFinite)
    (hd : l.direction.All IsZero) : s.meetsLine l = s.contains l.origin := by
  cases hin : s.contains l.origin with
  | true => exact meetsLine_of_contains hfin hin
  | false =>
    rw [meetsLine, contact_eq_degenerate hr hfin hd hin]
    rfl

end Sphere

/-! ## Rays and segments from a point -/

namespace Shape

/-- What is answered about the lines from a point agrees with what is answered about the point. -/
structure AgreesAtStart (a : Shape (Binary f)) (o : Vec3 (Binary f)) : Prop where
  ray : a.meets? (.point o) = some true → ∀ d, a.meets? (.ray ⟨o, d⟩) = some true
  segment : a.meets? (.point o) = some true → ∀ e, a.meets? (.segment ⟨o, e⟩) = some true
  still_ray : ∀ d, d.All IsZero → a.meets? (.ray ⟨o, d⟩) = a.meets? (.point o)
  still_segment : ∀ e, (e - o).All IsZero → a.meets? (.segment ⟨o, e⟩) = a.meets? (.point o)

/-- All lines that start in a box or in a sphere meet it, and those that do not move meet it only
then (`contains` and `intersect_line_with_aabb`, `intersect_line_with_sphere`). The corners of the
box are numbers and its points finite; they can lead anywhere, also to what is not a number. The
radius of the sphere is not below zero and its square finite; the points can be anything. -/
theorem agreesAtStart :
    (∀ b : Box (Binary f), b.IsNumeric → ∀ o : Vec3 (Binary f), o.All IsFinite →
      (Shape.box b).AgreesAtStart o) ∧
    ∀ s : Sphere (Binary f), 0 ≤ s.radius → s.radiusSq.IsFinite → ∀ o : Vec3 (Binary f),
      (Shape.sphere s).AgreesAtStart o := by
  constructor
  · intro b hb o ho
    have hnum := ho.mono fun _ h => h.1
    refine ⟨fun h d => ?_, fun h e => ?_, fun d hd => ?_, fun e he => ?_⟩
    · have hin : b.contains o = true := Option.some.inj h
      exact congrArg some (Box.meetsLine_of_contains hb ho (Ray.zero_le_maxParam _) hin)
    · have hin : b.contains o = true := Option.some.inj h
      exact congrArg some (Box.meetsLine_of_contains hb ho (Segment.zero_le_maxParam _) hin)
    · exact congrArg some (Box.meetsLine_of_still hb hnum hd)
    · exact congrArg some (Box.meetsLine_of_still hb hnum he)
  · intro s hr hfin o
    refine ⟨fun h d => ?_, fun h e => ?_, fun d hd => ?_, fun e he => ?_⟩
    · have hin : s.contains o = true := Option.some.inj h
      exact congrArg some (Sphere.meetsLine_of_contains hfin hin)
    · have hin : s.contains o = true := Option.some.inj h
      exact congrArg some (Sphere.meetsLine_of_contains hfin hin)
    · exact congrArg some (Sphere.meetsLine_of_still hr hfin hd)
    · exact congrArg some (Sphere.meetsLine_of_still hr hfin he)

/-- A ray from a corner of an unbounded box meets it though its direction is not even a number. A
segment without length meets the sphere that it touches, and misses the one that it does not. -/
theorem agreesAtStart_corner :
    (Shape.box ⟨⟨-infinity, 0, 0⟩, ⟨0, infinity, 0⟩⟩ : Shape Binary32).meets?
        (.ray ⟨0, ⟨nan, -infinity, minPositive⟩⟩) = some true ∧
      (Shape.sphere ⟨0, 1⟩ : Shape Binary32).meets? (.segment ⟨⟨0, 1, 0⟩, ⟨0, 1, 0⟩⟩) = some true ∧
        (Shape.sphere ⟨0, 1⟩ : Shape Binary32).meets? (.segment ⟨⟨0, 1, 1⟩, ⟨0, 1, 1⟩⟩) =
          some false := by
  obtain ⟨hbox, hsphere⟩ := agreesAtStart (f := .single)
  have hzero : (0 : Binary32).IsFinite := ⟨rfl, by decide⟩
  have hb := hbox ⟨⟨-infinity, 0, 0⟩, ⟨0, infinity, 0⟩⟩ ⟨⟨rfl, rfl, rfl⟩, rfl, rfl, rfl⟩ 0
    ⟨hzero, hzero, hzero⟩
  have hs := hsphere ⟨0, 1⟩ (by decide) ⟨by decide, by decide⟩
  refine ⟨hb.ray (by decide) _, (hs _).segment (by decide) _, ?_⟩
  rw [(hs ⟨0, 1, 1⟩).still_segment ⟨0, 1, 1⟩ ⟨rfl, rfl, rfl⟩]
  decide

end Shape

end HitTest
