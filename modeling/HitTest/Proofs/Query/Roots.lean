import HitTest.Proofs.Binary.Root
import HitTest.Query.Solid

/-!
# The roots at which a line meets a sphere (`intersect_line_with_sphere`)

A line that starts outside of a sphere meets it if its direction is not zero, the discriminant is
not negative, and the part between the two roots is not all beyond the end of the line or behind its
start. The roots are numbers only if the coefficients they are computed from are finite, so nothing
that overflows is left when a line is said to meet the sphere. Moving the start closer, or the end
of the line away, then moves both roots apart or leaves them where they are.
-/

namespace HitTest

namespace Sphere

variable {S : Type} [Scalar S]

/-- The parameters between the roots of `a * s ^ 2 + 2 * b * s + c` are not all beyond `maxParam`
or below zero. -/
structure RootsReach (a b c maxParam : S) : Prop where
  moves : ¬ a ≤ 0
  real : ¬ b * b - a * c < 0
  near_le : (-b - Scalar.sqrt (b * b - a * c)) / a ≤ maxParam
  le_far : 0 ≤ (-b + Scalar.sqrt (b * b - a * c)) / a

/-- A line meets a sphere that is not empty if it starts inside, or between the roots. -/
theorem meetsLine_iff_rootsReach {s : Sphere S} {l : Line S} :
    s.meetsLine l = true ↔ s.isEmpty = false ∧
      ((l.origin - s.center).normSq - s.radiusSq ≤ 0 ∨
        RootsReach l.direction.normSq (l.direction.dot (l.origin - s.center))
          ((l.origin - s.center).normSq - s.radiusSq) l.maxParam) := by
  unfold meetsLine contact
  dsimp only
  generalize (l.origin - s.center).normSq - s.radiusSq = c
  generalize l.direction.normSq = a
  generalize l.direction.dot (l.origin - s.center) = b
  split_ifs with hempty hc ha hd
  · simp [Contact.isHit, hempty]
  · simp [Contact.isHit, hempty, hc]
  · have hnot : ¬ RootsReach a b c l.maxParam := fun h => h.moves ha
    simp [Contact.isHit, hc, hnot]
  · have hnot : ¬ RootsReach a b c l.maxParam := fun h => h.real hd
    simp [Contact.isHit, hc, hnot]
  · have hreach : RootsReach a b c l.maxParam ↔
        (-b - Scalar.sqrt (b * b - a * c)) / a ≤ l.maxParam ∧
          0 ≤ (-b + Scalar.sqrt (b * b - a * c)) / a :=
      ⟨fun h => ⟨h.near_le, h.le_far⟩, fun h => ⟨ha, hd, h.1, h.2⟩⟩
    simp [Contact.isHit, hempty, hc, hreach]

end Sphere

open Binary

variable {f : Format}

namespace Sphere.RootsReach

variable {a b c c' m m' : Binary f}

/-- A line that is longer reaches as far. -/
theorem extend (h : RootsReach a b c m) (hm : m ≤ m') : RootsReach a b c m' :=
  ⟨h.moves, h.real, Binary.le_trans h.near_le hm, h.le_far⟩

theorem isNumber_root (h : RootsReach a b c m) :
    (Scalar.sqrt (b * b - a * c)).isNumber = true :=
  (isNumber_of_sub (isNumber_of_div (isNumber_left h.near_le)).1).2

theorem isNumber_discriminant (h : RootsReach a b c m) : (b * b - a * c).isNumber = true :=
  isNumber_of_sqrt h.isNumber_root

theorem isNumber_c (h : RootsReach a b c m) : c.isNumber = true :=
  (isNumber_of_mul (isNumber_of_sub h.isNumber_discriminant).2).2

theorem discriminant_nonneg (h : RootsReach a b c m) : 0 ≤ b * b - a * c :=
  (Binary.not_lt h.isNumber_discriminant rfl).1 h.real

theorem pos_a (h : RootsReach a b c m) : 0 < a :=
  (Binary.not_le (isNumber_of_div (isNumber_left h.near_le)).2 rfl).1 h.moves

/-- If the linear coefficient were infinite, the root of the discriminant would be too, and one of the
two sums would be of opposite infinities. -/
theorem isFinite_b (h : RootsReach a b c m) : b.IsFinite := by
  by_contra hinf
  obtain ⟨hnear, -⟩ := isNumber_of_div (isNumber_left h.near_le)
  obtain ⟨hfar, -⟩ := isNumber_of_div (isNumber_right h.le_far)
  have hb : b.isNumber = true := by
    rw [← isNumber_neg]
    exact (isNumber_of_sub hnear).1
  obtain ⟨s, rfl⟩ := exists_eq_signedInfinity hb hinf
  have hdisc := h.isNumber_discriminant
  rw [signedInfinity_mul_self] at hnear hfar hdisc
  have hroot : Scalar.sqrt (signedInfinity false - a * c) = signedInfinity false := by
    have e : signedInfinity false - a * c = signedInfinity false := signedInfinity_add hdisc
    rw [e]
    exact sqrt_signedInfinity
  rw [hroot] at hnear hfar
  have hnan : ∀ t : Bool, ¬ (signedInfinity t - signedInfinity t : Binary f).isNumber = true := by
    intro t ht
    rw [signedInfinity_sub_self] at ht
    cases ht
  cases s with
  | true => exact hnan false hnear
  | false => exact hnan true hfar

/-- If the product with the constant coefficient were infinite, the discriminant would be below zero
or not a number. -/
theorem isFinite_mul (h : RootsReach a b c m) (hc : 0 < c) : (a * c).IsFinite := by
  have hac := (isNumber_of_sub h.isNumber_discriminant).2
  have hnonneg : 0 ≤ a * c :=
    (Binary.not_lt hac rfl).1 (not_mul_neg (Binary.le_of_lt h.pos_a) (Binary.le_of_lt hc))
  rcases isFinite_or_infinite_of_nonneg hnonneg with hfin | hinf
  · exact hfin
  · have hdisc := h.discriminant_nonneg
    rw [hinf] at hdisc
    rw [sub_signedInfinity (isNumber_right hdisc)] at hdisc
    exact absurd hdisc not_signedInfinity_nonneg

/-- A constant coefficient that is smaller, but still above zero, leaves the discriminant a number
that is not smaller. -/
theorem discriminant_le (h : RootsReach a b c m) (hc' : 0 < c') (hle : c' ≤ c) :
    b * b - a * c ≤ b * b - a * c' := by
  have hfin := h.isFinite_mul (Binary.lt_of_lt_of_le hc' hle)
  have ha := (isFinite_of_mul hfin).1
  have hc'fin := (isFinite_of_mul hfin).2.of_nonneg_of_le (Binary.le_of_lt hc') hle
  have hac' := (rounds_mul ha hc'fin).isNumber
  have hmul : a * c' ≤ a * c := Binary.mul_le_mul_left (Binary.le_of_lt h.pos_a) hle hac' hfin.1
  have hnonneg : 0 ≤ a * c' :=
    (Binary.not_lt hac' rfl).1 (not_mul_neg (Binary.le_of_lt h.pos_a) (Binary.le_of_lt hc'))
  have hbb := isNumber_of_sub h.isNumber_discriminant
  exact Binary.sub_le_sub (Binary.le_refl hbb.1) hmul h.isNumber_discriminant
    (sub_signs hbb.1 (hfin.of_nonneg_of_le hnonneg hmul)).1

/-- The roots move apart when the constant coefficient gets smaller. -/
theorem shrink (h : RootsReach a b c m) (hc' : 0 < c') (hle : c' ≤ c) : RootsReach a b c' m := by
  have hdisc := h.discriminant_le hc' hle
  have hroot := Binary.sqrt_le_sqrt h.discriminant_nonneg hdisc
  have ha := (isFinite_of_mul (h.isFinite_mul (Binary.lt_of_lt_of_le hc' hle))).1
  have hb := h.isFinite_b.neg
  have hnear : -b - Scalar.sqrt (b * b - a * c') ≤ -b - Scalar.sqrt (b * b - a * c) :=
    Binary.sub_le_sub (Binary.le_refl hb.1) hroot
      (hb.isNumber_sub (isNumber_right hroot)) (hb.isNumber_sub (isNumber_left hroot))
  have hfar : -b + Scalar.sqrt (b * b - a * c) ≤ -b + Scalar.sqrt (b * b - a * c') :=
    Binary.add_le_add (Binary.le_refl hb.1) hroot (hb.isNumber_add (isNumber_left hroot))
      (hb.isNumber_add (isNumber_right hroot))
  have hreal : ¬ b * b - a * c' < 0 :=
    (Binary.not_lt (isNumber_right hdisc) rfl).2 (Binary.le_trans h.discriminant_nonneg hdisc)
  exact ⟨h.moves, hreal, Binary.le_trans (Binary.div_le_div_right ha h.pos_a hnear) h.near_le,
    Binary.le_trans h.le_far (Binary.div_le_div_right ha h.pos_a hfar)⟩

end Sphere.RootsReach

/-- A line that meets a sphere starts at a distance that does not overflow. -/
theorem Sphere.isFinite_normSq_of_meetsLine {s : Sphere (Binary f)} {l : Line (Binary f)}
    (h : s.meetsLine l = true) : (l.origin - s.center).normSq.IsFinite := by
  obtain ⟨-, h⟩ := meetsLine_iff_rootsReach.1 h
  generalize hm : (l.origin - s.center).normSq = m at h
  have hc : (m - s.radiusSq).isNumber = true ∧ m - s.radiusSq ≠ signedInfinity false := by
    by_cases hin : m - s.radiusSq ≤ 0
    · refine ⟨isNumber_left hin, ?_⟩
      intro e
      exact not_signedInfinity_nonpos (e ▸ hin)
    · have hroots := h.resolve_left hin
      have hn := hroots.isNumber_c
      have hfin := (isFinite_of_mul (hroots.isFinite_mul ((Binary.not_le hn rfl).1 hin))).2
      refine ⟨hn, ?_⟩
      intro e
      rw [e] at hfin
      exact isFinite_number.1 hfin rfl
  have h0 : 0 ≤ m := hm ▸ Vec3.normSq_nonneg
    (Vec3.isNumber_of_normSq (hm ▸ (isNumber_of_sub hc.1).1))
  rcases isFinite_or_infinite_of_nonneg h0 with hfin | rfl
  · exact hfin
  · exact absurd (signedInfinity_add hc.1) hc.2

end HitTest
