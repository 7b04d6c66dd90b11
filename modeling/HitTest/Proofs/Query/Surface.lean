import HitTest.Proofs.Vec3
import HitTest.Query.Surface
import Mathlib.Tactic.SplitIfs

/-!
# Crossing a surface

A line crosses a surface if it passes a sequence of tests, of which only the last one depends on
where the line ends: the parameter that was computed has to be on the part that is present.
-/

namespace HitTest

variable {S : Type} [Scalar S]

namespace Triangle

variable {t : Triangle S} {l : Line S} {u v s : S}

/-- The coordinates along the edges and the parameter that are computed for a line, if none of the
tests rejects it before the parameter is looked at. -/
structure Passes (t : Triangle S) (o d : Vec3 S) (u v s : S) : Prop where
  not_parallel : ¬ Scalar.abs (t.determinant d) ≤ Scalar.minPositive
  u_eq : 1 / t.determinant d * (o - t.v0).dot (d.cross t.edge1) = u
  u_range : ¬ (u < 0 ∨ 1 < u)
  v_eq : 1 / t.determinant d * d.dot ((o - t.v0).cross t.edge0) = v
  v_range : ¬ (v < 0 ∨ 1 < u + v)
  s_eq : 1 / t.determinant d * t.edge1.dot ((o - t.v0).cross t.edge0) = s

/-- A triangle is hit by a line that passes, at a parameter where it is present. -/
theorem crossing_eq_hit_iff : t.crossing l = .hit u v s ↔
    t.Passes l.origin l.direction u v s ∧ l.containsParam s = true := by
  unfold crossing
  dsimp only
  constructor
  · intro h
    split_ifs at h with h1 h2 h3 h4
    cases h
    exact ⟨⟨h1, rfl, h2, rfl, h3, rfl⟩, h4⟩
  · rintro ⟨⟨h1, rfl, h2, rfl, h3, rfl⟩, h4⟩
    rw [if_neg h1, if_neg h2, if_neg h3, if_pos h4]

theorem hit?_eq_some_iff_crossing {p : Vec3 S} : t.hit? l = some p ↔
    ∃ u v s, t.crossing l = .hit u v s ∧ t.pointAt u v = p := by
  unfold hit?
  cases t.crossing l with
  | parallel => simp [Crossing.point?]
  | miss => simp [Crossing.point?]
  | hit u v s =>
    rw [Crossing.point?, Option.some_inj]
    constructor
    · intro h
      exact ⟨u, v, s, rfl, h⟩
    · rintro ⟨u', v', s', h, hp⟩
      cases h
      exact hp

end Triangle

namespace Plane

variable {pl : Plane S} {l : Line S} {s : S}

/-- The parameter that is computed for a line that is not parallel. -/
structure Passes (pl : Plane S) (o d : Vec3 S) (s : S) : Prop where
  not_parallel : ¬ Scalar.abs (pl.normal.dot d) ≤ Scalar.minPositive
  s_eq : -pl.distanceTo o / pl.normal.dot d = s

theorem crossing?_eq_some_iff : pl.crossing? l = some s ↔
    pl.Passes l.origin l.direction s ∧ l.containsParam s = true := by
  unfold crossing?
  dsimp only
  constructor
  · intro h
    split_ifs at h with h1 h2
    cases h
    exact ⟨⟨h1, rfl⟩, h2⟩
  · rintro ⟨⟨h1, rfl⟩, h2⟩
    rw [if_neg h1, if_pos h2]

end Plane

end HitTest
