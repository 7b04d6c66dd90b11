import HitTest.Proofs.Query.Inside
import HitTest.Proofs.Query.Roots
import HitTest.Query.Any

/-!
# Growing the radius of a sphere

A sphere with the same center and a radius that is not smaller meets everything that the smaller one
meets. Every query compares a distance with a square that grows with the radius, and rounding keeps
that order; for a line the distance enters into the roots, which move apart, until the start of the
line is inside. No overflow gets in the way: what the smaller sphere is hit by has finite
coefficients where they matter, and an infinite radius makes a finite start lie inside.
-/

namespace HitTest

open Binary

variable {f : Format}

namespace Sphere

variable {s t : Sphere (Binary f)}

/-- A sphere that is not empty, and one of the same center whose radius is not smaller. -/
structure Within (s t : Sphere (Binary f)) : Prop where
  center : t.center = s.center
  nonneg : 0 ≤ s.radius
  radius_le : s.radius ≤ t.radius

namespace Within

variable (h : s.Within t)

include h

theorem isEmpty_eq_false : t.isEmpty = false :=
  Sphere.isEmpty_eq_false (Binary.le_trans h.nonneg h.radius_le)

theorem radiusSq_le : s.radiusSq ≤ t.radiusSq :=
  Binary.mul_self_le_mul_self_of_nonneg h.nonneg h.radius_le

theorem contains_of_contains {p : Vec3 (Binary f)} (hp : s.contains p = true) :
    t.contains p = true := by
  rw [contains_iff] at hp ⊢
  rw [h.center]
  exact ⟨h.isEmpty_eq_false, Binary.le_trans hp.2 h.radiusSq_le⟩

theorem meetsBox_of_meetsBox {b : Box (Binary f)} (hb : s.meetsBox b = true) :
    t.meetsBox b = true := by
  simp only [meetsBox, Bool.and_eq_true, Bool.not_eq_true', decide_eq_true_eq] at hb ⊢
  rw [h.center]
  exact ⟨⟨h.isEmpty_eq_false, hb.1.2⟩, Binary.le_trans hb.2 h.radiusSq_le⟩

/-- The other sphere is not empty, so its radius is added to the smaller and to the larger one as
something that is not below zero, or it is not a number and neither sum is. -/
theorem meetsSphere_of_meetsSphere {u : Sphere (Binary f)} (hu : s.meetsSphere u = true) :
    t.meetsSphere u = true := by
  simp only [meetsSphere, Bool.and_eq_true, Bool.not_eq_true', decide_eq_true_eq] at hu ⊢
  obtain ⟨⟨-, hne⟩, hle⟩ := hu
  have hn : u.radius.isNumber = true :=
    (isNumber_of_add (isNumber_of_mul (isNumber_right hle)).1).2
  have hu0 : 0 ≤ u.radius := by
    rw [isEmpty, decide_eq_false_iff_not, Binary.not_lt hn rfl] at hne
    exact hne
  obtain ⟨hsum, hsumle⟩ :=
    Binary.add_le_add_of_nonneg h.nonneg h.radius_le hu0 (Binary.le_refl hn)
  rw [h.center]
  exact ⟨⟨h.isEmpty_eq_false, hne⟩,
    Binary.le_trans hle (Binary.mul_self_le_mul_self_of_nonneg hsum hsumle)⟩

/-- A start at a finite distance is not farther outside of the larger sphere. -/
theorem sub_radiusSq_le {m : Binary f} (hm : m.IsFinite) : m - t.radiusSq ≤ m - s.radiusSq := by
  have hle := h.radiusSq_le
  exact Binary.sub_le_sub (Binary.le_refl hm.1) hle (hm.isNumber_sub (isNumber_right hle))
    (hm.isNumber_sub (isNumber_left hle))

/-- The line starts inside of the larger sphere, or the roots are there and have moved apart. -/
theorem meetsLine_of_meetsLine {l : Line (Binary f)} (hl : s.meetsLine l = true) :
    t.meetsLine l = true := by
  have hle := h.sub_radiusSq_le (isFinite_normSq_of_meetsLine hl)
  rw [meetsLine_iff_rootsReach] at hl ⊢
  rw [h.center]
  refine ⟨h.isEmpty_eq_false, ?_⟩
  rcases hl.2 with hin | hroots
  · exact .inl (Binary.le_trans hle hin)
  · by_cases hin : (l.origin - s.center).normSq - t.radiusSq ≤ 0
    · exact .inl hin
    · exact .inr (hroots.shrink ((Binary.not_le (isNumber_left hle) rfl).1 hin) hle)

end Within

/-- What a sphere meets is met by a sphere of the same center and a radius that is not smaller,
whatever it is and also if it is not made of finite numbers (`Intersects` for `Sphere`). -/
theorem meets_of_radius_le {c : Vec3 (Binary f)} {r r' : Binary f} (h0 : 0 ≤ r) (hle : r ≤ r')
    (x : Shape (Binary f)) (hm : (Shape.sphere ⟨c, r⟩).meets? x = some true) :
    (Shape.sphere ⟨c, r'⟩).meets? x = some true := by
  have h : Within ⟨c, r⟩ ⟨c, r'⟩ := ⟨rfl, h0, hle⟩
  cases x with
  | point p => exact congrArg some (h.contains_of_contains (Option.some.inj hm))
  | sphere u => exact congrArg some (h.meetsSphere_of_meetsSphere (Option.some.inj hm))
  | box b => exact congrArg some (h.meetsBox_of_meetsBox (Option.some.inj hm))
  | ray l => exact congrArg some (h.meetsLine_of_meetsLine (Option.some.inj hm))
  | segment g => exact congrArg some (h.meetsLine_of_meetsLine (Option.some.inj hm))
  | triangle t => cases hm
  | plane p => cases hm

/-- A segment that ends on a unit sphere meets the sphere that has grown without bounds. -/
theorem meets_of_radius_le_infinity :
    (Shape.sphere ⟨0, infinity⟩ : Shape Binary32).meets? (.segment ⟨⟨0, 0, ofNat 2⟩, ⟨0, 0, 1⟩⟩) =
      some true :=
  meets_of_radius_le (r := 1) (by decide) (by decide) _ (by decide +kernel)

end Sphere

end HitTest
