import HitTest.Proofs.Exact.Draw
import HitTest.Proofs.Exact.Sphere
import HitTest.Proofs.Trial.Drawn
import HitTest.Proofs.Trial.History

/-!
# The trials of spheres are decided by the distance (`broadside_trials`, `endpoint_trials`)

Without rounding a drawn direction has length one, and so has the direction at a right angle to it.
A line across the base point is therefore as near to the center there as it gets, and a line that
leads on from the base point is nearest where it starts. In both cases the drawn distance is the
least distance of the line from the center, and the query agrees with the expected answer.
-/

namespace HitTest

/-! ## Directions -/

namespace Vec3

section Field

variable {K : Type} [Field K] (a b : Vec3 K) (s : K)

theorem normSq_mul : (a * s).normSq = a.normSq * (s * s) := by
  simp only [normSq, dot, mul_x, mul_y, mul_z]
  ring

theorem mul_dot : (a * s).dot b = a.dot b * s := by
  simp only [dot, mul_x, mul_y, mul_z]
  ring

theorem cross_dot_left : (a.cross b).dot a = 0 := by
  simp only [dot, cross]
  ring

end Field

variable {ε τ : ℝ} {h : 0 < τ} {v : Vec3 ℝ}

/-- A vector brought to length one. -/
noncomputable def unit (v : Vec3 ℝ) : Vec3 ℝ := v * (1 / √v.normSq)

theorem normSq_unit (hv : 0 < v.normSq) : v.unit.normSq = 1 := by
  have hsq : 1 / √v.normSq * (1 / √v.normSq) = 1 / v.normSq := by
    rw [div_mul_div_comm, one_mul, Real.mul_self_sqrt hv.le]
  rw [unit, normSq_mul, hsq, mul_one_div_cancel hv.ne']

theorem normalize_map (v : Vec3 ℝ) :
    (v.map Exact.value : Vec3 (Exact (.real ε τ h))).normalize = v.unit.map Exact.value := by
  simp [normalize, norm, unit]

theorem map_div_value {K : Type} [Field K] [LinearOrder K] {P : Exact.Params K} (a : Vec3 K)
    (s : K) : (a.map Exact.value : Vec3 (Exact P)) / (Exact.value s : Exact P) =
      (a * (1 / s)).map Exact.value :=
  have hdiv (x : K) : (Exact.value x / Exact.value s : Exact P) = Exact.value (x * (1 / s)) := by
    rw [Exact.div_value, mul_one_div]
  Vec3.ext (hdiv a.x) (hdiv a.y) (hdiv a.z)

/-- The axis along which a vector is shortest is not its own axis. -/
theorem exists_shortestAxis_map {K : Type} [Field K] [LinearOrder K] [IsStrictOrderedRing K]
    {P : Exact.Params K} (v : Vec3 K) : ∃ e : Vec3 K,
      (v.map Exact.value : Vec3 (Exact P)).shortestAxis = e.map Exact.value ∧
        (v.cross e = 0 → v = 0) := by
  have zero_of_abs_le : ∀ {x y : K}, |x| ≤ |y| → y = 0 → x = 0 := by
    rintro x y hle rfl
    exact abs_nonpos_iff.1 (by simpa using hle)
  simp only [shortestAxis, map_x, map_y, map_z, Exact.abs_value, Exact.value_le_value]
  split_ifs with hx hy
  · refine ⟨⟨1, 0, 0⟩, rfl, fun h => ?_⟩
    have hz : v.z = 0 := by simpa [cross] using congrArg Vec3.y h
    have hy : v.y = 0 := by simpa [cross] using congrArg Vec3.z h
    exact Vec3.ext (zero_of_abs_le hx.1 hy) hy hz
  · refine ⟨⟨0, 1, 0⟩, rfl, fun h => ?_⟩
    have hz : v.z = 0 := by simpa [cross] using congrArg Vec3.x h
    have hx : v.x = 0 := by simpa [cross] using congrArg Vec3.z h
    exact Vec3.ext hx (zero_of_abs_le hy hz) hz
  · refine ⟨⟨0, 0, 1⟩, rfl, fun h => ?_⟩
    have hy : v.y = 0 := by simpa [cross] using congrArg Vec3.x h
    have hx : v.x = 0 := by simpa [cross] using congrArg Vec3.y h
    exact Vec3.ext hx hy (zero_of_abs_le (le_of_lt (not_le.1 ‹_›)) hy)

/-- A vector that is not zero has a direction of length one at a right angle to it. -/
theorem exists_perpendicular_map (hv : v ≠ 0) : ∃ q : Vec3 ℝ,
    (v.map Exact.value : Vec3 (Exact (.real ε τ h))).perpendicular = q.map Exact.value ∧
      q.normSq = 1 ∧ q.dot v = 0 := by
  obtain ⟨e, he, hcross⟩ := v.exists_shortestAxis_map (P := .real ε τ h)
  have hpos : 0 < (v.cross e).normSq := normSq_pos (mt hcross hv)
  refine ⟨(v.cross e).unit, ?_, normSq_unit hpos, ?_⟩
  · rw [perpendicular, he, cross_map]
    simp only [norm, normSq_map, Exact.sqrt_value, Exact.Params.real_sqrt, Exact.zero_eq,
      Exact.value_lt_value, Real.sqrt_pos.2 hpos, if_true]
    exact map_div_value _ _
  · rw [unit, mul_dot, cross_dot_left, zero_mul]

end Vec3

/-! ## Lines at a distance -/

namespace Sphere

variable {s : Sphere ℝ} {p : Probe ℝ} {ε τ : ℝ} {h : 0 < τ} {t : ℝ}

/-- A line whose nearest point is at a distance meets the spheres of at least that radius. -/
theorem meetsLine_iff_le (hr : 0 ≤ s.radius) (ht : 0 ≤ t)
    (hnear : ∃ x, p.InDomain x ∧ s.center.distSq (p.pointAt x) = t ^ 2)
    (hfar : ∀ x, p.InDomain x → t ^ 2 ≤ s.center.distSq (p.pointAt x)) :
    (s.map (Exact.value : ℝ → Exact (.real ε τ h))).meetsLine (p.map Exact.value).line = true ↔
      t ≤ s.radius := by
  have hle : t ≤ s.radius ↔ t ^ 2 ≤ s.radiusSq := by
    rw [radiusSq, ← sq, sq_le_sq₀ ht hr]
  rw [hle]
  constructor
  · intro hmeets
    obtain ⟨-, x, hx, hx'⟩ := exists_of_meetsLine hmeets
    exact (hfar x hx).trans hx'
  · intro hle
    obtain ⟨x, hx, hx'⟩ := hnear
    exact meetsLine_of_distSq_le hr hx (hx'.trans_le hle)

end Sphere

namespace SphereLine

variable {S T : Type}

/-- The configuration with a function applied to every scalar. -/
def map (g : S → T) (c : SphereLine S) : SphereLine T :=
  ⟨c.sphere.map g, c.direction.map g, g c.distance⟩

/-- What can be drawn without rounding. -/
structure IsProper (c : SphereLine ℝ) : Prop where
  radius_nonneg : 0 ≤ c.sphere.radius
  distance_nonneg : 0 ≤ c.distance
  normSq_direction : c.direction.normSq = 1

variable {c : SphereLine ℝ} {ε τ : ℝ} {h : 0 < τ}

/-- The base point without rounding. -/
def basePoint (c : SphereLine ℝ) : Vec3 ℝ := c.sphere.center + c.direction * c.distance

/-- The squared distance of a point at a way from the base point at a right angle. -/
theorem distSq_basePoint_add (hc : c.IsProper) {q : Vec3 ℝ} (hq : q.normSq = 1)
    (hdot : q.dot c.direction = 0) (x : ℝ) :
    c.sphere.center.distSq (c.basePoint + q * x) = c.distance ^ 2 + x ^ 2 := by
  have hd := hc.normSq_direction
  simp only [Vec3.normSq, Vec3.dot] at hd hq hdot
  simp only [basePoint, Vec3.distSq, Vec3.normSq, Vec3.dot, Vec3.sub_x, Vec3.sub_y, Vec3.sub_z,
    Vec3.add_x, Vec3.add_y, Vec3.add_z, Vec3.mul_x, Vec3.mul_y, Vec3.mul_z]
  linear_combination c.distance ^ 2 * hd + x ^ 2 * hq + 2 * c.distance * x * hdot

/-- The squared distance of a point further on from the base point. -/
theorem distSq_basePoint_add_direction (hc : c.IsProper) (x : ℝ) :
    c.sphere.center.distSq (c.basePoint + c.direction * x) = (c.distance + x) ^ 2 := by
  have hd := hc.normSq_direction
  simp only [Vec3.normSq, Vec3.dot] at hd
  simp only [basePoint, Vec3.distSq, Vec3.normSq, Vec3.dot, Vec3.sub_x, Vec3.sub_y, Vec3.sub_z,
    Vec3.add_x, Vec3.add_y, Vec3.add_z, Vec3.mul_x, Vec3.mul_y, Vec3.mul_z]
  linear_combination (c.distance + x) ^ 2 * hd

/-- The two lines of a trial, from one point to another and through it. -/
def probes (start finish : Vec3 ℝ) : List (Probe ℝ) :=
  [.segment ⟨start, finish⟩, .ray ⟨start, finish - start⟩]

/-- Both lines have the same points, and their domains agree from zero to one. -/
theorem of_mem_probes {start finish : Vec3 ℝ} {p : Probe ℝ} (hp : p ∈ probes start finish) (x : ℝ) :
    p.pointAt x = start + (finish - start) * x ∧ (0 ≤ x → x ≤ 1 → p.InDomain x) ∧
      (p.InDomain x → 0 ≤ x) := by
  simp only [probes, List.mem_cons, List.not_mem_nil, or_false] at hp
  rcases hp with rfl | rfl
  · exact ⟨rfl, fun h0 h1 => ⟨h0, h1⟩, fun hx => hx.1⟩
  · exact ⟨rfl, fun h0 _ => h0, fun hx => hx⟩

/-- A line across the base point is nearest to the center there. -/
theorem meetsLine_across_iff (hc : c.IsProper) {q : Vec3 ℝ} (hq : q.normSq = 1)
    (hdot : q.dot c.direction = 0) {a b : ℝ} (ha : 0 ≤ a) (hb : 0 ≤ b) {p : Probe ℝ}
    (hp : p ∈ probes (c.basePoint + q * a) (c.basePoint - q * b)) :
    (c.sphere.map (Exact.value : ℝ → Exact (.real ε τ h))).meetsLine (p.map Exact.value).line =
      true ↔ c.distance ≤ c.sphere.radius := by
  have hpoint : ∀ x, p.pointAt x = c.basePoint + q * (a - x * (a + b)) := by
    intro x
    rw [(of_mem_probes hp x).1]
    ext <;> simp <;> ring
  have hdist : ∀ x, c.sphere.center.distSq (p.pointAt x) =
      c.distance ^ 2 + (a - x * (a + b)) ^ 2 := by
    intro x
    rw [hpoint, distSq_basePoint_add hc hq hdot]
  -- the base point divides the way from one end to the other; without a way it is the only point
  refine Sphere.meetsLine_iff_le hc.radius_nonneg hc.distance_nonneg ⟨a / (a + b), ?_, ?_⟩ ?_
  · exact (of_mem_probes hp _).2.1 (by positivity) (div_le_one_of_le₀ (by linarith) (by linarith))
  · have hbase : a - a / (a + b) * (a + b) = 0 := by
      by_cases hab : a + b = 0
      · have : a = 0 := by linarith
        simp [this]
      · rw [div_mul_cancel₀ _ hab, sub_self]
    rw [hdist, hbase]
    ring
  · intro x _
    rw [hdist]
    linarith [sq_nonneg (a - x * (a + b))]

/-- A line that leads on from the base point is nearest to the center where it starts. -/
theorem meetsLine_onward_iff (hc : c.IsProper) {a : ℝ} (ha : 0 ≤ a) {p : Probe ℝ}
    (hp : p ∈ probes c.basePoint (c.basePoint + c.direction * a)) :
    (c.sphere.map (Exact.value : ℝ → Exact (.real ε τ h))).meetsLine (p.map Exact.value).line =
      true ↔ c.distance ≤ c.sphere.radius := by
  have hpoint : ∀ x, p.pointAt x = c.basePoint + c.direction * (x * a) := by
    intro x
    rw [(of_mem_probes hp x).1]
    ext <;> simp <;> ring
  have hdist : ∀ x, c.sphere.center.distSq (p.pointAt x) = (c.distance + x * a) ^ 2 := by
    intro x
    rw [hpoint, distSq_basePoint_add_direction hc]
  refine Sphere.meetsLine_iff_le hc.radius_nonneg hc.distance_nonneg ⟨0, ?_, ?_⟩ ?_
  · exact (of_mem_probes hp _).2.1 le_rfl zero_le_one
  · rw [hdist, zero_mul, add_zero]
  · intro x hx
    have hway : 0 ≤ x * a := mul_nonneg ((of_mem_probes hp x).2.2 hx) ha
    rw [hdist]
    exact pow_le_pow_left₀ hc.distance_nonneg (by linarith) 2

/-! ## Drawn configurations -/

/-- What is drawn from elements from zero to one is a proper configuration without rounding. -/
theorem IsDrawn.exists_isProper {d : SphereLine (Exact (.real ε τ h))} (hε : 0 ≤ ε)
    (hd : d.IsDrawn Exact.IsUnitElement) : ∃ c : SphereLine ℝ,
      d = c.map Exact.value ∧ c.IsProper := by
  obtain ⟨center, hcenter⟩ :=
    Exact.exists_eq_map_of_all (hd.center.mono fun _ => Exact.IsUnitElement.isElement)
  obtain ⟨_, ⟨r, hr0, -, rfl⟩, hradius⟩ := hd.radius
  obtain ⟨v, hv, hlong, hdirection⟩ := hd.direction
  obtain ⟨w, rfl⟩ := Exact.exists_eq_map_of_all (hv.mono fun _ => Exact.IsUnitElement.isElement)
  obtain ⟨_, ⟨t, ht0, -, rfl⟩, hdistance⟩ := hd.distance
  refine ⟨⟨⟨center, 2 * r⟩, w.unit, 4 * t⟩, ?_, ?_, ?_, ?_⟩
  · rcases d with ⟨⟨center', radius⟩, direction, distance⟩
    simp only at hcenter hradius hdirection hdistance
    rw [hcenter, hradius, hdirection, hdistance, Vec3.normalize_map, Exact.two_eq, Exact.four_eq]
    rfl
  · exact mul_nonneg zero_le_two hr0
  · exact mul_nonneg zero_le_four ht0
  · rw [Vec3.normSq_map, Exact.epsilon_eq, Exact.value_lt_value] at hlong
    exact Vec3.normSq_unit (hε.trans_lt hlong)

theorem base_map (c : SphereLine ℝ) : (c.map (Exact.value : ℝ → Exact (.real ε τ h))).base =
    c.basePoint.map Exact.value := by
  rfl

/-! ## Trials -/

/-- Both lines of a trial meet the sphere if and only if the drawn distance is at most the radius. -/
def IsDecided {S : Type} [Scalar S] (t : Trial S) : Prop :=
  ∃ (c : SphereLine S) (start finish : Vec3 S), t = c.trial start finish ∧
    (c.sphere.meetsLine (Segment.mk start finish).line = true ↔ c.distance ≤ c.sphere.radius) ∧
    (c.sphere.meetsLine (Ray.mk start (finish - start)).line = true ↔
      c.distance ≤ c.sphere.radius)

/-- Then nothing is wrong in the trial. -/
theorem IsDecided.mismatch_eq_none {S : Type} [Scalar S] {t : Trial S} (ht : IsDecided t) :
    t.segment.mismatch = none ∧ t.ray.mismatch = none := by
  obtain ⟨c, start, finish, rfl, hsegment, hray⟩ := ht
  constructor
  · refine Mismatch.ofAnswer_eq_none_iff.2 ?_
    rw [Bool.eq_iff_iff, decide_eq_true_iff]
    exact hsegment.symm
  · refine Mismatch.ofAnswer_eq_none_iff.2 ?_
    rw [Bool.eq_iff_iff, decide_eq_true_iff]
    exact hray.symm

theorem isDecided_of_probes {start finish : Vec3 ℝ}
    (hmeets : ∀ p ∈ probes start finish, (c.sphere.map Exact.value).meetsLine
      (p.map (Exact.value : ℝ → Exact (.real ε τ h))).line = true ↔
        c.distance ≤ c.sphere.radius) :
    IsDecided ((c.map (Exact.value : ℝ → Exact (.real ε τ h))).trial (start.map Exact.value)
      (finish.map Exact.value)) := by
  simp only [probes, List.forall_mem_cons, List.not_mem_nil, false_imp_iff, implies_true,
    and_true] at hmeets
  refine ⟨_, _, _, rfl, ?_, ?_⟩
  · exact hmeets.1.trans Exact.value_le_value.symm
  · rw [Vec3.map_sub_map]
    exact hmeets.2.trans Exact.value_le_value.symm

/-- A drawn line across the base point is decided. -/
theorem isDecided_crosswise (hε : 0 ≤ ε) {d : SphereLine (Exact (.real ε τ h))}
    (hd : d.IsDrawn Exact.IsUnitElement) {x y : Exact (.real ε τ h)} (hx : Exact.IsUnitElement x)
    (hy : Exact.IsUnitElement y) : IsDecided (d.crosswise x y) := by
  obtain ⟨c, rfl, hc⟩ := hd.exists_isProper hε
  obtain ⟨a, ha, -, rfl⟩ := hx
  obtain ⟨b, hb, -, rfl⟩ := hy
  have hne : c.direction ≠ 0 := by
    intro h0
    simpa [h0, Vec3.normSq, Vec3.dot] using hc.normSq_direction
  obtain ⟨q, hq, hq1, hdot⟩ := Vec3.exists_perpendicular_map (ε := ε) (h := h) hne
  have h4 : ∀ {x : ℝ}, 0 ≤ x → 0 ≤ 4 * x := fun hx => mul_nonneg zero_le_four hx
  have htrial : IsDecided ((c.map (Exact.value : ℝ → Exact (.real ε τ h))).trial
      ((c.basePoint + q * (4 * a)).map Exact.value) ((c.basePoint - q * (4 * b)).map Exact.value)) :=
    isDecided_of_probes fun p hp => meetsLine_across_iff hc hq1 hdot (h4 ha) (h4 hb) hp
  have hside : (c.map (Exact.value : ℝ → Exact (.real ε τ h))).direction.perpendicular =
      q.map Exact.value := hq
  rw [crosswise, base_map, Exact.four_eq, hside, Exact.mul_value, Exact.mul_value,
    Vec3.map_mul_value, Vec3.map_mul_value, Vec3.map_add_map, Vec3.map_sub_map]
  exact htrial

/-- A drawn line onward from the base point is decided. -/
theorem isDecided_outward (hε : 0 ≤ ε) {d : SphereLine (Exact (.real ε τ h))}
    (hd : d.IsDrawn Exact.IsUnitElement) {x : Exact (.real ε τ h)} (hx : Exact.IsUnitElement x) :
    IsDecided (d.outward x) := by
  obtain ⟨c, rfl, hc⟩ := hd.exists_isProper hε
  obtain ⟨a, ha, -, rfl⟩ := hx
  rw [outward, base_map, Exact.two_eq]
  exact isDecided_of_probes fun p hp => meetsLine_onward_iff hc (mul_nonneg zero_le_two ha) hp

theorem trial_ensures (hε : 0 ≤ ε) {G : Type} [ScalarSource G (Exact (.real ε τ h))] {I : G → Prop}
    (hI : Draw.Yields I (Exact.IsUnitElement : Exact (.real ε τ h) → Prop)) {suite : Suite}
    (hsuite : suite = .sphereBroadside ∨ suite = .sphereEndpoint) (tries : Nat) :
    (suite.trial tries : Draw G (Exact (.real ε τ h)) (Trial (Exact (.real ε τ h)))).Ensures I
      IsDecided (· = .noDirection) := by
  have hradius : ∀ x : Exact (.real ε τ h), Exact.IsUnitElement x → 0 ≤ Scalar.two * x := by
    rintro _ ⟨r, hr, -, rfl⟩
    simpa using hr
  rcases hsuite with rfl | rfl
  · refine (broadside_ensures hI hradius).mono ?_ fun _ he => he
    rintro t ⟨c, a, b, hc, ha, hb, rfl⟩
    exact isDecided_crosswise hε hc ha hb
  · refine (endpoint_ensures hI hradius).mono ?_ fun _ he => he
    rintro t ⟨c, a, hc, ha, rfl⟩
    exact isDecided_outward hε hc ha

/-- Without rounding nothing is ever wrong in the trials of spheres (`broadside_trials` and
`endpoint_trials`). From any source of numbers from zero to one, any number of trials is drawn, both
lines of every one of them meet the sphere if and only if the drawn distance is at most the radius,
and no mismatch is counted or kept; only the tries to find a direction may run out, after some of
the trials, in the draw of the next one. -/
theorem trials_run_without_mismatch (hε : 0 ≤ ε) {G : Type}
    [ScalarSource G (Exact (.real ε τ h))] {I : G → Prop}
    (hI : Draw.Yields I (Exact.IsUnitElement : Exact (.real ε τ h) → Prop)) {g : G} (hg : I g)
    {suite : Suite} (hsuite : suite = .sphereBroadside ∨ suite = .sphereEndpoint) (tries : Nat)
    (trials : UInt32) :
    (∃ (p : Progress (Exact (.real ε τ h))) (g' : G) (ts : List (Trial (Exact (.real ε τ h)))),
      (suite.trials tries trials.toNat 0 (.start trials)).run g = .ok (p, g') ∧
        ts.length = trials.toNat ∧ suite.Drawn tries g ts g' ∧ (∀ t ∈ ts, IsDecided t) ∧
        p.tally = { trials } ∧ ∀ e ∈ p.events, e.mismatch? = none) ∨
    ((suite.trials tries trials.toNat 0 (.start trials) :
      Draw G (Exact (.real ε τ h)) (Progress (Exact (.real ε τ h)))).run g = .error .noDirection ∧
      suite.RunsOut (Exact (.real ε τ h)) tries trials.toNat g) := by
  have hnone : ∀ ts : List (Trial (Exact (.real ε τ h))), (∀ t ∈ ts, IsDecided t) →
      Trial.mismatches ts = [] := fun ts hts =>
    Trial.mismatches_eq_nil_iff.2 fun t ht => (hts t ht).mismatch_eq_none
  rcases Suite.trials_run_cases trials.toNat 0 (.start trials) (trial_ensures hε hI hsuite tries) hg
    with ⟨p, g', ts, hrun, hlen, hdrawn, hts, hgrows⟩ |
      ⟨_, ts, g', hrun, rfl, hlen, hdrawn, hnext⟩ | ⟨-, ts, m, -, hts, hfull⟩
  · have hnew := Trial.filterMap_history 0 ts
    rw [hnone ts hts] at hnew
    refine .inl ⟨p, g', ts, hrun, hlen, hdrawn, hts, ?_, ?_⟩
    · refine Tally.eq_of_count_eq hgrows.trials fun m => UInt32.toNat_inj.1 ?_
      rw [hgrows.count_of_start, hnone ts hts]
      cases m <;> rfl
    · intro e he
      rw [← Array.mem_toList_iff, hgrows.events_of_start] at he
      exact List.filterMap_eq_nil_iff.1 hnew e he
  · exact .inr ⟨hrun, ts, g', hlen, hdrawn, Suite.runsOut_of_trial_run hsuite hnext⟩
  · rw [hnone ts hts] at hfull
    simp at hfull

/-- Three trials with one half drawn again and again. -/
theorem trials_run_without_mismatch_half :
    ∃ (p : Progress (Exact (.real (1 / 4) (1 / 2) one_half_pos))) (g : Counter),
      (Suite.trials .sphereBroadside 1 3 0 (.start 3)).run ⟨0x8000000000000000, 0⟩ = .ok (p, g) ∧
        p.tally = { trials := 3 } := by
  have hI := Exact.yields_isUnitElement (P := .real (1 / 4) (1 / 2) one_half_pos)
    (I := (· = Counter.mk 0x8000000000000000 0)) (by rintro _ rfl; rfl)
  rcases trials_run_without_mismatch (by norm_num) hI rfl (.inl rfl) 1 3 with
    ⟨p, g, _, hrun, -, -, -, htally, -⟩ | ⟨-, ts, g, -, hdrawn, hout⟩
  · exact ⟨p, g, hrun, htally⟩
  · -- wherever the counter is, the first vector is long enough
    obtain ⟨rfl, -⟩ := hdrawn.forall (trial_ensures (by norm_num) hI (.inl rfl) 1) rfl
    have hout := hout.of_constant (Counter.next_constant _)
    obtain ⟨hfin, hvalue⟩ := Binary.value_unitFraction 0x8000000000000000
    have hword : ((0x8000000000000000 : UInt64) >>> 11).toNat = 2 ^ 52 := by decide
    have hlong : (Scalar.epsilon : Exact (.real (1 / 4) (1 / 2) one_half_pos)) <
        (Vec3.uniform (Scalar.ofBinary64 (unitFraction 0x8000000000000000))).normSq := by
      rw [Exact.ofBinary64_of_isFinite hfin, hvalue, hword]
      simp only [Vec3.uniform, Vec3.normSq, Vec3.dot, Exact.mul_value, Exact.add_value,
        Exact.epsilon_eq, Exact.Params.real_epsilon, Exact.value_lt_value]
      norm_num
    rw [Draw.direction, Draw.run_bind_of_ok _ (Draw.vector_run_of_constant
      (Counter.next_constant _)), if_pos hlong] at hout
    cases hout

end SphereLine

end HitTest
