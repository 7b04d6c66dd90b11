import HitTest.Proofs.Exact.Draw
import HitTest.Proofs.Exact.Triangle
import HitTest.Proofs.Trial.Drawn
import HitTest.Proofs.Trial.History

/-!
# The trials of triangles are decided by the drawn coordinates (`tri::random_trials`)

A line is made from the point that it is to cross the triangle in. Without rounding it is at that
point at the drawn parameter, and unless it is parallel to the triangle it meets the plane only
once, so the query finds the drawn coordinates and the drawn parameter again. A line that counts as
parallel is answered with nothing, which can only be a false negative.
-/

namespace HitTest

/-! ## Comparing points -/

namespace Mismatch

variable {S : Type} [Scalar S] {expected : Bool} {point : Vec3 S} {actual : Option (Vec3 S)}

/-- An answer without a point can only be wrong if one was expected. -/
theorem ofPoint_none (expected : Bool) (point : Vec3 S) :
    ofPoint expected point none = none ∨ ofPoint expected point none = some falseNegative := by
  cases expected
  · exact .inl rfl
  · exact .inr rfl

/-- Nothing is wrong with an answer that has exactly the expected point. -/
theorem ofPoint_eq_none (hself : point.equivalent point = true)
    (h : ∀ q, actual = some q ↔ expected = true ∧ q = point) : ofPoint expected point actual = none := by
  cases expected with
  | false =>
    have hnone : actual = none := by
      refine Option.eq_none_iff_forall_ne_some.2 fun q hq => ?_
      simpa using (h q).1 hq
    rw [hnone]
    rfl
  | true =>
    rw [(h point).2 ⟨rfl, rfl⟩]
    exact if_pos hself

end Mismatch

namespace Vec3

variable {K : Type} [Field K] [LinearOrder K] {P : Exact.Params K}

theorem norm1_map (a : Vec3 K) : (a.map Exact.value : Vec3 (Exact P)).norm1 =
    Exact.value (|a.x| + |a.y| + |a.z|) := by
  simp [norm1]

variable [IsStrictOrderedRing K]

/-- A vector is equal to itself up to a positive tolerance. -/
theorem equivalent_self_map (hε : 0 < P.epsilon) (a : Vec3 K) :
    (a.map Exact.value : Vec3 (Exact P)).equivalent (a.map Exact.value) = true := by
  have hzero : |(a - a).x| + |(a - a).y| + |(a - a).z| = 0 := by simp
  have hpos : 0 < 100 * P.epsilon := by positivity
  rw [equivalent, equivalentWith, decide_eq_true_iff, map_sub_map, norm1_map, norm1_map, hzero,
    Exact.tolerance_eq, Exact.add_value, Exact.mul_value, Exact.add_value, Exact.value_lt_value]
  positivity

end Vec3

namespace TriangleLine

/-- The configuration with a function applied to every scalar. -/
def map {S T : Type} (g : S → T) (c : TriangleLine S) : TriangleLine T :=
  ⟨c.triangle.map g, g c.u, g c.v, g c.t, c.direction.map g⟩

/-! ## The lines without rounding -/

section Lines

variable {K : Type} [Field K] (c : TriangleLine K)

/-- The drawn point without rounding. -/
def target : Vec3 K := c.triangle.pointAt c.u c.v

/-- The segment without rounding. -/
def segmentProbe : Probe K :=
  .segment ⟨c.target - c.direction * c.t, c.target + c.direction * (1 - c.t)⟩

/-- The ray without rounding. -/
def rayProbe : Probe K := .ray ⟨c.target - c.direction * c.t, c.direction⟩

/-- The way from the one end to the other is the drawn direction. -/
theorem segmentProbe_direction : c.segmentProbe.direction = c.direction := by
  ext <;> simp [segmentProbe, Probe.direction, Segment.direction] <;> ring

/-- A line that starts where it should is at the drawn point at the drawn parameter. -/
theorem pointAt_eq_target {p : Probe K} (horigin : p.origin = c.target - c.direction * c.t)
    (hdirection : p.direction = c.direction) : p.pointAt c.t = c.target := by
  rw [Probe.pointAt, horigin, hdirection]
  ext <;> simp

end Lines

/-! ## Answers -/

section Answers

variable {K : Type} [Field K] [LinearOrder K] {P : Exact.Params K} (c : TriangleLine K)

theorem point_map : (c.map (Exact.value : K → Exact P)).point = c.target.map Exact.value :=
  Triangle.pointAt_map _ _

theorem onTriangle_map : (c.map (Exact.value : K → Exact P)).onTriangle = true ↔
    0 ≤ c.u ∧ 0 ≤ c.v ∧ c.u + c.v ≤ 1 := by
  simp [onTriangle, map, and_assoc]

theorem segment_map : (c.map (Exact.value : K → Exact P)).segment.line =
    (c.segmentProbe.map Exact.value).line := by
  simp [segment, origin, point, map, segmentProbe, target, Probe.map, Probe.line]

theorem ray_map : (c.map (Exact.value : K → Exact P)).ray.line =
    (c.rayProbe.map Exact.value).line := by
  simp [ray, origin, point, map, rayProbe, target, Probe.map, Probe.line]

/-- Both lines are answered as the drawn scalars say: with the drawn point if its coordinates are
those of a point on the triangle and the parameter is on the line, and with nothing otherwise. -/
structure IsAnswered (P : Exact.Params K) (c : TriangleLine K) : Prop where
  segment : ∀ q : Vec3 (Exact P),
    (c.map Exact.value).triangle.hit? (c.map Exact.value).segment.line = some q ↔
      (0 ≤ c.u ∧ 0 ≤ c.v ∧ c.u + c.v ≤ 1 ∧ 0 ≤ c.t ∧ c.t ≤ 1) ∧
        q = (c.triangle.v0 + c.triangle.edge0 * c.u + c.triangle.edge1 * c.v).map Exact.value
  ray : ∀ q : Vec3 (Exact P),
    (c.map Exact.value).triangle.hit? (c.map Exact.value).ray.line = some q ↔
      (0 ≤ c.u ∧ 0 ≤ c.v ∧ c.u + c.v ≤ 1 ∧ 0 ≤ c.t) ∧
        q = (c.triangle.v0 + c.triangle.edge0 * c.u + c.triangle.edge1 * c.v).map Exact.value

variable {c}

/-- A line that counts as parallel to the triangle is answered with nothing. -/
theorem hit?_eq_none_of_le (hdet : |c.triangle.determinant c.direction| ≤ P.minPositive)
    {p : Probe K} (hdirection : p.direction = c.direction) :
    (c.triangle.map (Exact.value : K → Exact P)).hit? (p.map Exact.value).line = none := by
  rw [← hdirection] at hdet
  rw [Triangle.hit?, Triangle.crossing_of_le hdet]
  rfl

/-- In a trial whose lines count as parallel hits are missed at worst. -/
theorem mismatch_eq_falseNegative (hdet : |c.triangle.determinant c.direction| ≤ P.minPositive) :
    ∀ b ∈ [(c.map (Exact.value : K → Exact P)).trial.segment,
      (c.map (Exact.value : K → Exact P)).trial.ray], ∀ m, b.mismatch = some m →
        m = .falseNegative := by
  have hwrong : ∀ {expected : Bool} {point : Vec3 (Exact P)} {actual : Option (Vec3 (Exact P))} {m},
      actual = none → Mismatch.ofPoint expected point actual = some m → m = .falseNegative := by
    rintro expected point _ m rfl hm
    rcases Mismatch.ofPoint_none expected point with h | h <;> rw [h] at hm <;> cases hm
    rfl
  simp only [List.forall_mem_cons, List.not_mem_nil, false_imp_iff, implies_true, and_true]
  constructor
  · have hnone := hit?_eq_none_of_le hdet c.segmentProbe_direction
    rw [← segment_map] at hnone
    exact fun m => hwrong hnone
  · have hnone := hit?_eq_none_of_le (p := c.rayProbe) hdet rfl
    rw [← ray_map] at hnone
    exact fun m => hwrong hnone

variable [IsStrictOrderedRing K]

/-- Nothing is wrong in a trial that is answered so. -/
theorem IsAnswered.mismatch_eq_none (hε : 0 < P.epsilon) (h : c.IsAnswered P) :
    (c.map (Exact.value : K → Exact P)).trial.segment.mismatch = none ∧
      (c.map (Exact.value : K → Exact P)).trial.ray.mismatch = none := by
  have hself : (c.map (Exact.value : K → Exact P)).point.equivalent (c.map Exact.value).point =
      true := by
    rw [point_map]
    exact Vec3.equivalent_self_map hε c.target
  constructor
  · refine Mismatch.ofPoint_eq_none hself fun q => (h.segment q).trans ?_
    rw [Bool.and_eq_true, Bool.and_eq_true, onTriangle_map, point_map]
    simp [map, target, Triangle.pointAt, and_assoc]
  · refine Mismatch.ofPoint_eq_none hself fun q => (h.ray q).trans ?_
    rw [Bool.and_eq_true, onTriangle_map, point_map]
    simp [map, target, Triangle.pointAt, and_assoc]

/-- What a query answers to a line through the drawn point that is not parallel to the triangle. -/
theorem hit?_eq_some_iff_of_lt (hdet : P.minPositive < |c.triangle.determinant c.direction|)
    {p : Probe K} (horigin : p.origin = c.target - c.direction * c.t)
    (hdirection : p.direction = c.direction) (q : Vec3 (Exact P)) :
    (c.triangle.map Exact.value).hit? (p.map Exact.value).line = some q ↔
      (0 ≤ c.u ∧ 0 ≤ c.v ∧ c.u + c.v ≤ 1 ∧ p.InDomain c.t) ∧ q = c.target.map Exact.value := by
  rw [← hdirection] at hdet
  have hne : c.triangle.determinant p.direction ≠ 0 := abs_pos.1 (P.minPositive_pos.trans hdet)
  have hsolve : ⟨c.u, c.v, c.t⟩ = c.triangle.solve p :=
    (Triangle.pointAt_eq_iff hne _).1 (c.pointAt_eq_target horigin hdirection)
  rw [Triangle.hit?_eq_some_iff hdet, ← hsolve]
  rfl

/-- A trial whose lines are not parallel to the triangle is answered as the drawn scalars say. -/
theorem isAnswered_of_lt (hdet : P.minPositive < |c.triangle.determinant c.direction|) :
    c.IsAnswered P where
  segment q := by
    rw [segment_map]
    exact hit?_eq_some_iff_of_lt hdet rfl c.segmentProbe_direction q
  ray q := by
    rw [ray_map]
    exact hit?_eq_some_iff_of_lt hdet rfl rfl q

/-- Whatever is wrong in a trial is a missed hit by lines that count as parallel. -/
theorem missed_of_mismatch (hε : 0 < P.epsilon) {b : Comparison (Exact P)} {m : Mismatch}
    (hb : b ∈ [(c.map (Exact.value : K → Exact P)).trial.segment,
      (c.map (Exact.value : K → Exact P)).trial.ray]) (hm : b.mismatch = some m) :
    m = .falseNegative ∧ |c.triangle.determinant c.direction| ≤ P.minPositive := by
  rcases le_or_gt |c.triangle.determinant c.direction| P.minPositive with hdet | hdet
  · exact ⟨mismatch_eq_falseNegative hdet b hb m hm, hdet⟩
  · obtain ⟨hsegment, hray⟩ := (isAnswered_of_lt hdet).mismatch_eq_none hε
    simp only [List.mem_cons, List.not_mem_nil, or_false] at hb
    rcases hb with rfl | rfl
    · rw [hsegment] at hm
      cases hm
    · rw [hray] at hm
      cases hm

end Answers

/-! ## Runs -/

section Runs

variable {K : Type} [Field K] [LinearOrder K] {P : Exact.Params K} {G : Type}
  [ScalarSource G (Exact P)] {I : G → Prop}

/-- A trial is drawn from any source of elements. -/
theorem trial_ensures (hI : Draw.Yields I (Exact.IsElement : Exact P → Prop)) (tries : Nat) :
    (Suite.triangleLine.trial tries : Draw G (Exact P) (Trial (Exact P))).Ensures I
      (fun t => ∃ c : TriangleLine K, (c.map Exact.value).trial = t) (fun _ => False) := by
  refine .bind (draw_ensures hI) fun d hd => .pure ?_
  have hcoordinate : ∀ {y : Exact P}, IsCoordinate Exact.IsElement y → ∃ x : K, y = .value x := by
    rintro _ ⟨_, ⟨x, rfl⟩, rfl⟩
    exact ⟨4 * x - 2, by simp⟩
  obtain ⟨a, ha⟩ := Exact.exists_eq_map_of_all hd.v0
  obtain ⟨b, hb⟩ := Exact.exists_eq_map_of_all hd.v1
  obtain ⟨e, he⟩ := Exact.exists_eq_map_of_all hd.v2
  obtain ⟨u, hu⟩ := hcoordinate hd.u
  obtain ⟨v, hv⟩ := hcoordinate hd.v
  obtain ⟨t, ht⟩ := hcoordinate hd.t
  obtain ⟨q, hq⟩ := Exact.exists_eq_map_of_all hd.direction
  refine ⟨⟨⟨a, b, e⟩, u, v, t, q⟩, ?_⟩
  rcases d with ⟨⟨v0, v1, v2⟩, u', v', t', q'⟩
  simp only at ha hb he hu hv ht hq
  rw [ha, hb, he, hu, hv, ht, hq]
  rfl

/-- Without rounding hits are missed at worst, by lines that count as parallel
(`tri::random_trials`). From any source of elements any number of trials is drawn, unless so many
hits are missed that they cannot be counted. No hit is found that is not there, and no hit at
another point than the drawn one, and a trial in which a hit is missed has a determinant up to the
threshold. In every other trial both lines are answered as the drawn scalars say. -/
theorem trials_run_falseNegative [IsStrictOrderedRing K] (hε : 0 < P.epsilon)
    (hI : Draw.Yields I (Exact.IsElement : Exact P → Prop)) {g : G} (hg : I g) (tries count : Nat)
    (trials : UInt32) :
    (∃ (p : Progress (Exact P)) (g' : G) (cs : List (TriangleLine K)),
      (Suite.triangleLine.trials tries count 0 (.start trials)).run g = .ok (p, g') ∧
        cs.length = count ∧
        Suite.triangleLine.Drawn tries g
          (cs.map fun c => (c.map Exact.value : TriangleLine (Exact P)).trial) g' ∧
        p.tally.falsePositives = 0 ∧ p.tally.notEquivalent = 0 ∧
        (∀ n m s, .mismatch n m s ∈ p.events → m = .falseNegative ∧ ∃ c : TriangleLine K,
          cs[n]? = some c ∧ |c.triangle.determinant c.direction| ≤ P.minPositive) ∧
        ∀ c ∈ cs, P.minPositive < |c.triangle.determinant c.direction| → c.IsAnswered P) ∨
    ((Suite.triangleLine.trials tries count 0 (.start trials) :
        Draw G (Exact P) (Progress (Exact P))).run g = .error (.overflow .overflow) ∧
      2 ^ 31 ≤ count) := by
  rcases Suite.trials_run_cases count 0 (.start trials) (trial_ensures hI tries) hg with
    ⟨p, g', ts, hrun, hlen, hdrawn, hts, hgrows⟩ | ⟨_, _, _, -, hnever, -⟩ |
      ⟨hrun, ts, m, hlen, -, hfull⟩
  · obtain ⟨cs, rfl⟩ : ∃ cs : List (TriangleLine K),
        (cs.map fun c => (c.map (Exact.value : K → Exact P)).trial) = ts := by
      have hrange : ts ∈ {l | ∀ t ∈ l, t ∈ Set.range
          fun c : TriangleLine K => (c.map (Exact.value : K → Exact P)).trial} := hts
      rwa [← Set.range_list_map] at hrange
    -- a kind of mismatch that is counted is among the mismatches of the trials
    have hcount : ∀ m, m ≠ .falseNegative → (p.tally.count m).toNat = 0 := by
      intro m hne
      rw [hgrows.count_of_start]
      refine List.count_eq_zero.2 fun hmem => hne ?_
      obtain ⟨t, ht, b, hb, hm⟩ := Trial.exists_of_mem_mismatches hmem
      obtain ⟨c, -, rfl⟩ := List.mem_map.1 ht
      exact (missed_of_mismatch hε hb hm).1
    refine .inl ⟨p, g', cs, hrun, by simpa using hlen, hdrawn,
      UInt32.toNat_inj.1 (hcount .falsePositive (by decide)),
      UInt32.toNat_inj.1 (hcount .notEquivalent (by decide)), ?_, fun c _ => isAnswered_of_lt⟩
    intro n m s hmem
    rw [← Array.mem_toList_iff, hgrows.events_of_start] at hmem
    obtain ⟨i, t, rfl, ht, b, hb, hm, -⟩ := Trial.exists_of_mem_history _ 0 hmem
    rw [List.getElem?_map] at ht
    obtain ⟨c, hc, rfl⟩ := Option.map_eq_some_iff.1 ht
    obtain ⟨hmissed, hdet⟩ := missed_of_mismatch hε hb hm
    exact ⟨hmissed, c, by rwa [Nat.zero_add], hdet⟩
  · exact hnever.elim
  · refine .inr ⟨hrun, ?_⟩
    have hle := (List.count_le_length (a := m)).trans (Trial.length_mismatches_le ts)
    have hsize : UInt32.size = 2 * 2 ^ 31 := by decide
    rw [Progress.count_start] at hfull
    omega

/-- Three trials with words that are spread over their range. -/
theorem trials_run_falseNegative_counter :
    ∃ (p : Progress (Exact (.real (1 / 1000) (1 / 1000) (by norm_num)))) (g : Counter),
      (Suite.triangleLine.trials 1 3 0 (.start 3)).run Counter.spread = .ok (p, g) ∧
        p.tally.falsePositives = 0 ∧ p.tally.notEquivalent = 0 := by
  have hI := Exact.yields_isUnitElement (P := .real (1 / 1000) (1 / 1000) (by norm_num))
    (I := fun _ : Counter => True) fun _ _ => trivial
  rcases trials_run_falseNegative (by norm_num) (fun g hg => ⟨(hI g hg).1.isElement, trivial⟩)
    (g := Counter.spread) trivial 1 3 3 with
    ⟨p, g, _, hrun, -, -, hpositive, hpoint, -⟩ | ⟨-, hmany⟩
  · exact ⟨p, g, hrun, hpositive, hpoint⟩
  · omega

end Runs

end TriangleLine

end HitTest
