import HitTest.Proofs.Query.Inside

/-!
# Rounded slabs (`intersect_line_with_aabb`)

A line is clipped against the two faces of an axis by rounded differences, a rounded reciprocal and
rounded products. None of them changes a sign, and what is not a number gives way in `min` and
`max`. So a line that starts between the faces keeps the parameter zero, whatever its direction. A
line that starts beyond a face and leads away from it keeps nothing, as long as no product is too
small to be told from zero.
-/

namespace HitTest

/-! ## Clipping by one axis -/

namespace Span

variable {S : Type} [Scalar S] (r : Span S) {o d lower upper : S}

/-- The parameter at which a moving line gets between two faces. -/
def enter (o d lower upper : S) : S :=
  if (upper - o) * (1 / d) < (lower - o) * (1 / d) then (upper - o) * (1 / d)
  else (lower - o) * (1 / d)

/-- The parameter at which a moving line ceases to be between two faces. -/
def exit (o d lower upper : S) : S :=
  if (upper - o) * (1 / d) < (lower - o) * (1 / d) then (lower - o) * (1 / d)
  else (upper - o) * (1 / d)

theorem clip_of_still (h : Scalar.abs d ≤ Scalar.minPositive) :
    r.clip o d lower upper = if o < lower ∨ upper < o then none else some r := if_pos h

theorem clip_of_moving (h : ¬ Scalar.abs d ≤ Scalar.minPositive) :
    r.clip o d lower upper =
      if min r.far (exit o d lower upper) < max r.near (enter o d lower upper) then none
      else some ⟨max r.near (enter o d lower upper), min r.far (exit o d lower upper)⟩ := if_neg h

end Span

/-- A box clips a line by one axis after the other. -/
theorem Box.clip_eq_some_iff {S : Type} [Scalar S] {b : Box S} {l : Line S} {r : Span S} :
    b.clip l = some r ↔ ∃ r1 r2 : Span S,
      (Span.mk 0 l.maxParam).clip l.origin.x l.direction.x b.least.x b.greatest.x = some r1 ∧
        r1.clip l.origin.y l.direction.y b.least.y b.greatest.y = some r2 ∧
          r2.clip l.origin.z l.direction.z b.least.z b.greatest.z = some r := by
  simp only [clip, Option.bind_eq_bind, Option.bind_eq_some_iff]
  constructor
  · rintro ⟨r1, e1, r2, e2, e3⟩
    exact ⟨r1, r2, e1, e2, e3⟩
  · rintro ⟨r1, r2, e1, e2, e3⟩
    exact ⟨r1, e1, r2, e2, e3⟩

open Binary

variable {f : Format}

/-! ## Lines that start inside -/

theorem Ray.zero_le_maxParam (r : Ray (Binary f)) : 0 ≤ r.line.maxParam := le_signedInfinity rfl

theorem Segment.zero_le_maxParam (g : Segment (Binary f)) : 0 ≤ g.line.maxParam :=
  nonneg_iff.2 ⟨isFinite_one.1, by simp [Segment.line]⟩

/-- Of two numbers on either side of zero the lesser is not above it and the greater not below. -/
theorem Binary.lesser_greater_of_signs {a b : Binary f} (ha : a.isNumber = true)
    (hb : b.isNumber = true) (h : a.value ≤ 0 ∧ 0 ≤ b.value ∨ b.value ≤ 0 ∧ 0 ≤ a.value) :
    ¬ 0 < (if b < a then b else a) ∧ ¬ (if b < a then a else b) < 0 := by
  split
  · rename_i hab
    rw [lt_iff_value hb ha] at hab
    rw [not_lt_iff_value rfl hb, not_lt_iff_value ha rfl, value_zero]
    rcases h with ⟨h1, h2⟩ | ⟨h1, h2⟩ <;> constructor <;> linarith
  · rename_i hab
    rw [not_lt_iff_value hb ha] at hab
    rw [not_lt_iff_value rfl ha, not_lt_iff_value hb rfl, value_zero]
    rcases h with ⟨h1, h2⟩ | ⟨h1, h2⟩ <;> constructor <;> linarith

/-- What is multiplied by the reciprocal of no finite number is neither above nor below zero. -/
theorem Binary.mul_reciprocal_of_not_isFinite {d : Binary f} (hd : ¬ d.IsFinite) (v : Binary f) :
    ¬ 0 < v * (1 / d) ∧ ¬ v * (1 / d) < 0 := by
  have hprod : v * (1 / d) = nan ∨ (v * (1 / d)).value = 0 := by
    rcases reciprocal_of_not_isFinite hd with h | ⟨s, h⟩
    · rw [h]
      left
      cases v <;> rfl
    · rw [h]
      exact mul_signedZero v s
  rw [pos_iff, neg_iff]
  rcases hprod with h | h
  · rw [h]
    simp [isNumber]
  · simp [h]

/-- Where a line enters and leaves a slab that its origin is in: not after parameter zero, and not
before it. -/
theorem Span.enter_exit_of_inside {o d lower upper : Binary f} (ho : o.IsFinite) (hl : lower ≤ o)
    (hu : o ≤ upper) (hd : ¬ d.abs ≤ minPositive) :
    ¬ 0 < Span.enter o d lower upper ∧ ¬ Span.exit o d lower upper < 0 := by
  obtain ⟨hln, -, -⟩ := (le_iff _ _).1 hl
  obtain ⟨-, hun, -⟩ := (le_iff _ _).1 hu
  obtain ⟨hu1, -, hu2⟩ := sub_signs hun ho
  obtain ⟨hl1, hl2, -⟩ := sub_signs hln ho
  replace hu2 := hu2 ((le_iff_value ho.1 hun).1 hu)
  replace hl2 := hl2 ((le_iff_value hln ho.1).1 hl)
  unfold Span.enter Span.exit
  by_cases hfin : d.IsFinite
  · obtain ⟨hi, hi0⟩ := reciprocal_ne_zero hfin hd
    obtain ⟨ha1, ha2, ha3⟩ := mul_signs hl1 hi hi0
    obtain ⟨hb1, hb2, hb3⟩ := mul_signs hu1 hi hi0
    apply lesser_greater_of_signs ha1 hb1
    -- the reciprocal has a sign, so the two products have opposite ones
    rcases lt_or_gt_of_ne hi0 with h | h
    · right
      exact ⟨hb2 (mul_nonpos_of_nonneg_of_nonpos hu2 h.le),
        ha3 (mul_nonneg_of_nonpos_of_nonpos hl2 h.le)⟩
    · left
      exact ⟨ha2 (mul_nonpos_of_nonpos_of_nonneg hl2 h.le), hb3 (mul_nonneg hu2 h.le)⟩
  · have hnone := mul_reciprocal_of_not_isFinite hfin
    split
    · exact ⟨(hnone _).1, (hnone _).2⟩
    · exact ⟨(hnone _).1, (hnone _).2⟩

/-- A range from no later than parameter zero to no earlier keeps it if the origin is in the
slab. -/
theorem Span.clip_of_inside {r : Span (Binary f)} {o d lower upper : Binary f}
    (hr : r.near ≤ 0 ∧ 0 ≤ r.far) (ho : o.IsFinite) (hl : lower ≤ o) (hu : o ≤ upper) :
    ∃ r', r.clip o d lower upper = some r' ∧ r'.near ≤ 0 ∧ 0 ≤ r'.far := by
  by_cases hd : Scalar.abs d ≤ Scalar.minPositive
  · have hin : ¬ (o < lower ∨ upper < o) := by
      obtain ⟨hln, -, hle⟩ := (le_iff _ _).1 hl
      obtain ⟨-, hun, hue⟩ := (le_iff _ _).1 hu
      rw [lt_iff, lt_iff]
      omega
    exact ⟨r, by rw [r.clip_of_still hd, if_neg hin], hr⟩
  · obtain ⟨h1, h2⟩ := Span.enter_exit_of_inside ho hl hu hd
    have hnear := max_nonpos hr.1 h1
    have hfar := min_nonneg hr.2 h2
    rw [r.clip_of_moving hd]
    refine ⟨_, if_neg ?_, hnear, hfar⟩
    rw [lt_iff_value (nonneg_iff.1 hfar).1 (nonpos_iff.1 hnear).1, not_lt]
    exact (nonpos_iff.1 hnear).2.trans (nonneg_iff.1 hfar).2

/-! ## Lines that start outside and lead away -/

/-- Whatever else happens to it, the near end of a range is never moved below zero. -/
theorem Span.near_nonneg_of_clip {r r' : Span (Binary f)} {o d lower upper : Binary f}
    (hr : 0 ≤ r.near) (h : r.clip o d lower upper = some r') : 0 ≤ r'.near := by
  by_cases hd : Scalar.abs d ≤ Scalar.minPositive
  · rw [r.clip_of_still hd, Option.ite_none_left_eq_some, Option.some_inj] at h
    exact h.2 ▸ hr
  · rw [r.clip_of_moving hd, Option.ite_none_left_eq_some, Option.some_inj] at h
    exact h.2 ▸ max_nonneg hr _

namespace Binary

/-- A product with a reciprocal is below zero if the signs are opposite and neither factor is so
small that the product could be rounded to zero. -/
theorem mul_reciprocal_neg {u d : Binary f} (hu : u.IsFinite) (hd : d.IsFinite)
    (hbig : ¬ d.abs ≤ minPositive) (hd2 : |d.value| ≤ 2) (hgap : 2 * f.unit ≤ |u.value|)
    (hopp : u.value * d.value < 0) : u * (1 / d) < 0 := by
  obtain ⟨hr, hi, -, -⟩ := reciprocal_spec hd hbig
  have hunit := f.unit_pos
  have h := rounds_mul hu hi
  -- the exact product is at most minus one unit, and minus one unit is a number
  have key : u.value * (1 / d).value ≤ -f.unit := by
    have hhalf := isFinite_half (f := f)
    rcases mul_neg_iff.1 hopp with ⟨h1, h2⟩ | ⟨h1, h2⟩
    · rw [abs_of_pos h1] at hgap
      rw [abs_of_neg h2] at hd2
      have : (1 / d).value ≤ -(1 / 2) := by
        have := hr.value_le (y := -Scalar.half) (by simpa using hhalf.1) (by
          rw [value_neg, value_half, div_le_iff_of_neg h2]; linarith)
        rwa [value_neg, value_half] at this
      nlinarith
    · rw [abs_of_neg h1] at hgap
      rw [abs_of_pos h2] at hd2
      have : 1 / 2 ≤ (1 / d).value := by
        have := hr.le_value hhalf.1 (by rw [value_half, le_div_iff₀ h2]; linarith)
        rwa [value_half] at this
      nlinarith
  have hone : 1 ≤ 2 * f.leading := Nat.mul_pos two_pos f.leading_pos
  have hle := h.neg.units_le_value hone (by simpa using le_neg.2 key)
  rw [Nat.cast_one, one_mul, value_neg] at hle
  exact neg_iff.2 ⟨h.isNumber, by linarith⟩

/-- A coordinate is beyond one of two faces by a gap that rounding cannot close, and the line does
not come back. -/
inductive Leaves (o d lower upper : Binary f) : Prop
  | above (gap : upper.value + 2 * f.unit ≤ o.value) (leads : 0 ≤ d.value)
  | below (gap : o.value + 2 * f.unit ≤ lower.value) (leads : d.value ≤ 0)

end Binary

/-- No parameter is left of a line that starts beyond a face and does not come back. -/
theorem Span.clip_of_leaves {r : Span (Binary f)} {o d lower upper : Binary f}
    (hr : 0 ≤ r.near) (h : Leaves o d lower upper) (hlu : lower.value ≤ upper.value)
    (ho : o.IsFinite) (hd : d.IsFinite) (hl : lower.IsFinite) (hu : upper.IsFinite)
    (hlo : (lower - o).IsFinite) (huo : (upper - o).IsFinite) (hd2 : |d.value| ≤ 2) :
    r.clip o d lower upper = none := by
  have hunit := f.unit_pos
  by_cases hbig : Scalar.abs d ≤ Scalar.minPositive
  · -- the line does not move, and its origin is beyond a face
    rw [r.clip_of_still hbig]
    refine if_pos ?_
    rw [lt_iff_value ho.1 hl.1, lt_iff_value hu.1 ho.1]
    cases h with
    | above gap _ => exact .inr (by linarith)
    | below gap _ => exact .inl (by linarith)
  · have hd0 : d.value ≠ 0 := fun h => hbig (abs_le_minPositive_of_value_eq_zero hd.1 h)
    have hneg : ∀ {u : Binary f}, u.IsFinite → (u - o).IsFinite → lower.value ≤ u.value →
        u.value ≤ upper.value → (u - o) * (1 / d) < 0 := by
      intro u hu huo h1 h2
      have hr := rounds_sub hu ho
      have htwo : 2 ≤ 2 * f.leading := Nat.le_mul_of_pos_right 2 f.leading_pos
      cases h with
      | above gap leads =>
        have hgap := hr.neg.units_le_value htwo (by rw [Nat.cast_ofNat]; linarith)
        rw [Nat.cast_ofNat, value_neg] at hgap
        exact mul_reciprocal_neg huo hd hbig hd2 (by rw [abs_of_nonpos] <;> linarith)
          (mul_neg_of_neg_of_pos (by linarith) (lt_of_le_of_ne leads (Ne.symm hd0)))
      | below gap leads =>
        have hgap := hr.units_le_value htwo (by rw [Nat.cast_ofNat]; linarith)
        rw [Nat.cast_ofNat] at hgap
        exact mul_reciprocal_neg huo hd hbig hd2 (by rw [abs_of_nonneg] <;> linarith)
          (mul_neg_of_pos_of_neg (by linarith) (lt_of_le_of_ne leads hd0))
    rw [r.clip_of_moving hbig]
    refine if_pos (lt_of_neg_of_nonneg (min_neg r.far ?_) (max_nonneg hr _))
    unfold exit
    split
    · exact hneg hl hlo le_rfl hlu
    · exact hneg hu huo hlu le_rfl

namespace Box

/-- A line that starts in a box shares its start with it, whatever its direction. -/
theorem meetsLine_of_contains {b : Box (Binary f)} (hb : b.IsNumeric) {l : Line (Binary f)}
    (ho : l.origin.All IsFinite) (hmax : 0 ≤ l.maxParam) (h : b.contains l.origin = true) :
    b.meetsLine l = true := by
  have hnum := ho.mono fun _ h => h.1
  obtain ⟨⟨hx1, hx2⟩, ⟨hy1, hy2⟩, hz1, hz2⟩ := (contains_iff hb hnum).1 h
  have hne := isEmpty_eq_false_of_contains hb hnum h
  obtain ⟨r1, e1, hr1⟩ := Span.clip_of_inside (r := ⟨0, l.maxParam⟩) (d := l.direction.x)
    ⟨Binary.le_refl rfl, hmax⟩ ho.1 hx1 hx2
  obtain ⟨r2, e2, hr2⟩ := Span.clip_of_inside (d := l.direction.y) hr1 ho.2.1 hy1 hy2
  obtain ⟨r3, e3, -⟩ := Span.clip_of_inside (d := l.direction.z) hr2 ho.2.2 hz1 hz2
  simp [meetsLine, hne, clip, e1, e2, e3]

end Box

end HitTest
