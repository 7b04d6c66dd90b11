import HitTest.Proofs.Trial.History

/-!
# What suites draw

Every scalar of a drawn configuration comes from the source, some of them scaled and moved to
another range. What is known of the scalars of the source is therefore known of the parts of the
configuration. Beyond that a sphere needs a radius that is not below zero, and a direction has to be
found. Of every trial it is known, whatever is drawn, what its two comparisons were made with.
-/

namespace HitTest

/-! ## Comparisons of a suite -/

section Comparisons

variable {S : Type}

/-- Whether a comparison was made with a ray. -/
def Subject.isRay : Subject S → Bool
  | triangle _ _ _ _ (.segment _) => false
  | triangle _ _ _ _ (.ray _) => true
  | sphere _ _ (.segment _) => false
  | sphere _ _ (.ray _) => true
  | box _ (.segment _) => false
  | box _ (.ray _) => true

/-- What is common to all trials of a suite: the first comparison is made with a segment and the
second one with a ray, and only those with triangles can be wrong about a point. -/
structure Trial.IsOf (suite : Suite) (t : Trial S) : Prop where
  segment : t.segment.subject.isRay = false
  ray : t.ray.subject.isRay = true
  point : suite ≠ .triangleLine → ∀ c ∈ [t.segment, t.ray], c.mismatch ≠ some .notEquivalent

theorem Trial.IsOf.of_ofAnswer {suite : Suite} {t : Trial S} {a b c d : Bool}
    (hsegment : t.segment.subject.isRay = false) (hray : t.ray.subject.isRay = true)
    (h : t.segment.mismatch = Mismatch.ofAnswer a b)
    (h' : t.ray.mismatch = Mismatch.ofAnswer c d) :
    t.IsOf suite where
  segment := hsegment
  ray := hray
  point _ k hk := by
    simp only [List.mem_cons, List.not_mem_nil, or_false] at hk
    rcases hk with rfl | rfl
    · exact h ▸ Mismatch.ofAnswer_ne_notEquivalent a b
    · exact h' ▸ Mismatch.ofAnswer_ne_notEquivalent c d

end Comparisons

variable {G S : Type} [Scalar S] [ScalarSource G S] {I : G → Prop} {D : S → Prop}
  {E : Fault S → Prop} {tries : Nat}

/-! ## Triangles -/

namespace TriangleLine

/-- A drawn scalar, from minus two to two. -/
def IsCoordinate (D : S → Prop) (u : S) : Prop := ∃ x, D x ∧ u = Scalar.four * x - Scalar.two

/-- All parts of a configuration come from drawn scalars. -/
structure IsDrawn (D : S → Prop) (c : TriangleLine S) : Prop where
  v0 : c.triangle.v0.All D
  v1 : c.triangle.v1.All D
  v2 : c.triangle.v2.All D
  u : IsCoordinate D c.u
  v : IsCoordinate D c.v
  t : IsCoordinate D c.t
  direction : c.direction.All D

theorem coordinate_ensures (h : Draw.Yields I D) :
    (coordinate : Draw G S S).Ensures I (IsCoordinate D) E :=
  .bind (Draw.scalar_ensures h) fun x hx => .pure ⟨x, hx, rfl⟩

/-- A triangle and the rest of the configuration are drawn from any source. -/
theorem draw_ensures (h : Draw.Yields I D) :
    (draw : Draw G S (TriangleLine S)).Ensures I (IsDrawn D) E :=
  .bind (Draw.vector_ensures h) fun _ h0 => .bind (Draw.vector_ensures h) fun _ h1 =>
    .bind (Draw.vector_ensures h) fun _ h2 => .bind (coordinate_ensures h) fun _ hu =>
      .bind (coordinate_ensures h) fun _ hv => .bind (coordinate_ensures h) fun _ ht =>
        .bind (Draw.vector_ensures h) fun _ hd => .pure ⟨h0, h1, h2, hu, hv, ht, hd⟩

end TriangleLine

/-! ## Spheres -/

namespace SphereLine

/-- All parts of a configuration come from drawn scalars. -/
structure IsDrawn (D : S → Prop) (c : SphereLine S) : Prop where
  center : c.sphere.center.All D
  radius : ∃ x, D x ∧ c.sphere.radius = Scalar.two * x
  direction : Draw.IsDirection D c.direction
  distance : ∃ x, D x ∧ c.distance = Scalar.four * x

/-- A sphere is drawn if drawn radii are not below zero, and the rest if a direction is found. -/
theorem draw_ensures (h : Draw.Yields I D) (hradius : ∀ x, D x → 0 ≤ Scalar.two * x) :
    (draw tries : Draw G S (SphereLine S)).Ensures I (IsDrawn D) (· = .noDirection) := by
  refine .bind (Draw.vector_ensures h) fun center hc => ?_
  refine .bind (Draw.scalar_ensures h) fun x hx => ?_
  have hok : Sphere.ofRadius center (Scalar.two * x) = .ok ⟨center, Scalar.two * x⟩ :=
    if_pos (hradius x hx)
  simp only [hok]
  refine .bind (Draw.direction_ensures h) fun d hd => ?_
  exact .bind (Draw.scalar_ensures h) fun y hy => .pure ⟨hc, ⟨x, hx, rfl⟩, hd, ⟨y, hy, rfl⟩⟩

/-- The trial with lines that reach `4 * a` to one side of the base point and `4 * b` to the other,
at a right angle to the direction from the center. -/
def crosswise (c : SphereLine S) (a b : S) : Trial S :=
  c.trial (c.base + c.direction.perpendicular * (Scalar.four * a : S))
    (c.base - c.direction.perpendicular * (Scalar.four * b : S))

/-- The trial with lines that lead `2 * a` on from the base point. -/
def outward (c : SphereLine S) (a : S) : Trial S :=
  c.trial c.base (c.base + c.direction * (Scalar.two * a : S))

theorem broadside_ensures (h : Draw.Yields I D) (hradius : ∀ x, D x → 0 ≤ Scalar.two * x) :
    (broadside tries : Draw G S (Trial S)).Ensures I
      (fun t => ∃ (c : SphereLine S) (a b : S), c.IsDrawn D ∧ D a ∧ D b ∧ t = c.crosswise a b)
      (· = .noDirection) :=
  .bind (draw_ensures h hradius) fun c hc => .bind (Draw.scalar_ensures h) fun a ha =>
    .bind (Draw.scalar_ensures h) fun b hb => .pure ⟨c, a, b, hc, ha, hb, rfl⟩

theorem endpoint_ensures (h : Draw.Yields I D) (hradius : ∀ x, D x → 0 ≤ Scalar.two * x) :
    (endpoint tries : Draw G S (Trial S)).Ensures I
      (fun t => ∃ (c : SphereLine S) (a : S), c.IsDrawn D ∧ D a ∧ t = c.outward a)
      (· = .noDirection) :=
  .bind (draw_ensures h hradius) fun c hc => .bind (Draw.scalar_ensures h) fun a ha =>
    .pure ⟨c, a, hc, ha, rfl⟩

/-- The tries run out in the draw of a sphere: after a center and a radius no direction is found. -/
def RunsOut (S : Type) [Scalar S] [ScalarSource G S] (tries : Nat) (g : G) : Prop :=
  ∃ (center : Vec3 S) (radius : S) (g1 g2 : G), Draw.vector.run g = .ok (center, g1) ∧
    Draw.scalar.run g1 = .ok (radius, g2) ∧
    (Draw.direction tries : Draw G S (Vec3 S)).run g2 = .error .noDirection

/-- If the draw of a configuration fails for want of a direction, the tries have run out in it. -/
theorem runsOut_of_draw_run {g : G}
    (h : (draw tries : Draw G S (SphereLine S)).run g = .error .noDirection) :
    RunsOut S tries g := by
  obtain ⟨center, g1, hcenter⟩ := Draw.exists_vector_run (S := S) g
  obtain ⟨x, g2, hx⟩ := Draw.exists_scalar_run (S := S) g1
  rw [draw, Draw.run_bind_of_ok _ hcenter, Draw.run_bind_of_ok _ hx] at h
  dsimp only at h
  split at h
  · cases h
  · rcases Draw.run_bind_eq_error_cases h with h | ⟨d, g3, -, h⟩
    · exact ⟨center, x, g1, g2, hcenter, hx, h⟩
    · -- the distance is drawn from any source
      obtain ⟨y, g4, hy⟩ := Draw.exists_scalar_run (S := S) g3
      rw [Draw.run_bind_of_ok _ hy] at h
      cases h

/-- In a source that stays as it is the tries run out wherever a direction is looked for. -/
theorem RunsOut.of_constant {g : G} {x : S} (h : ScalarSource.next g = (x, g))
    (hout : RunsOut S tries g) :
    (Draw.direction tries : Draw G S (Vec3 S)).run g = .error .noDirection := by
  obtain ⟨_, _, g1, g2, hcenter, hradius, hd⟩ := hout
  rw [Draw.vector_run_of_constant h] at hcenter
  cases hcenter
  rw [Draw.scalar_run_of_constant h] at hradius
  cases hradius
  exact hd

end SphereLine

/-! ## Suites -/

namespace Suite

/-- The suites that draw directions. -/
def IsSphere (suite : Suite) : Prop := suite = sphereBroadside ∨ suite = sphereEndpoint

/-- The tries run out in a run of trials: some of them are drawn, and in the draw of the next one no
direction is found. -/
def RunsOut (suite : Suite) (S : Type) [Scalar S] [ScalarSource G S] (tries count : Nat) (g : G) :
    Prop :=
  ∃ (ts : List (Trial S)) (g1 : G),
    ts.length < count ∧ suite.Drawn tries g ts g1 ∧ SphereLine.RunsOut S tries g1

/-- If a trial with a sphere fails for want of a direction, the tries have run out in its draw. -/
theorem runsOut_of_trial_run {suite : Suite} (hs : suite.IsSphere) {g : G}
    (h : (suite.trial tries : Draw G S (Trial S)).run g = .error .noDirection) :
    SphereLine.RunsOut S tries g := by
  rcases hs with rfl | rfl
  · rcases Draw.run_bind_eq_error_cases h with h | ⟨c, g1, -, h⟩
    · exact SphereLine.runsOut_of_draw_run h
    · obtain ⟨a, g2, ha⟩ := Draw.exists_scalar_run (S := S) g1
      obtain ⟨b, g3, hb⟩ := Draw.exists_scalar_run (S := S) g2
      rw [Draw.run_bind_of_ok _ ha, Draw.run_bind_of_ok _ hb] at h
      cases h
  · rcases Draw.run_bind_eq_error_cases h with h | ⟨c, g1, -, h⟩
    · exact SphereLine.runsOut_of_draw_run h
    · obtain ⟨a, g2, ha⟩ := Draw.exists_scalar_run (S := S) g1
      rw [Draw.run_bind_of_ok _ ha] at h
      cases h

end Suite

/-- Whatever a suite draws is a trial of that suite. -/
theorem Suite.trial_isOf (suite : Suite) (tries : Nat) :
    (suite.trial tries : Draw G S (Trial S)).Ensures (fun _ => True) (Trial.IsOf suite)
      (fun _ => True) := by
  cases suite with
  | triangleLine => exact .bind .any fun c _ => .pure ⟨rfl, rfl, fun h => absurd rfl h⟩
  | sphereBroadside =>
    exact .bind .any fun c _ => .bind .any fun x _ => .bind .any fun y _ =>
      .pure (.of_ofAnswer rfl rfl rfl rfl)
  | sphereEndpoint =>
    exact .bind .any fun c _ => .bind .any fun x _ => .pure (.of_ofAnswer rfl rfl rfl rfl)
  | boxLine => exact .bind .any fun c _ => .pure (.of_ofAnswer rfl rfl rfl rfl)

end HitTest
