import HitTest.Proofs.Random.Cycle
import HitTest.Proofs.Run.Verdict
import HitTest.Proofs.Trial.BoxLine
import HitTest.Proofs.Trial.Drawn

/-!
# Suites that do not break down (`run_suite`)

A trial has two comparisons, so fewer than `2 ^ 31` trials leave room in every count and in their
sum. Drawn radii are not below zero and a box of two points has a center, so in these many trials of
words of any source only the tries to find a direction can run out. More trials can break down: one
half drawn again and again makes triangles without area, and both hits are missed in every trial.
-/

namespace HitTest

open Binary hiding min max
open WordSource (advance)

variable {G : Type} [WordSource G] {I : G → Prop} {f : Format} {suite : Suite} {tries : Nat}

/-! ## Trials in any source of words -/

/-- From every source of words a suite draws its trials; only a direction may not be found. -/
theorem Suite.trial_ensures (hI : ∀ g, I g → I (WordSource.next g).2) (suite : Suite)
    (tries : Nat) : (suite.trial tries : Draw G (Binary f) (Trial (Binary f))).Ensures I
      (Trial.IsOf suite) (fun e => suite.IsSphere ∧ e = .noDirection) := by
  have hdraw := yields_isDraw (f := f) hI
  have hradius : ∀ x : Binary f, IsDraw x → 0 ≤ Scalar.two * x := fun _ h => h.two_mul_nonneg
  have h : (suite.trial tries : Draw G (Binary f) (Trial (Binary f))).Ensures I (fun _ => True)
      (fun e => suite.IsSphere ∧ e = .noDirection) := by
    cases suite with
    | triangleLine => exact .bind (TriangleLine.draw_ensures hdraw) fun _ _ => .pure trivial
    | sphereBroadside =>
      exact (SphereLine.broadside_ensures hdraw hradius).mono (fun _ _ => trivial)
        fun _ he => ⟨.inl rfl, he⟩
    | sphereEndpoint =>
      exact (SphereLine.endpoint_ensures hdraw hradius).mono (fun _ _ => trivial)
        fun _ he => ⟨.inr rfl, he⟩
    | boxLine => exact .bind (BoxLine.draw_ensures hdraw) fun _ _ => .pure trivial
  exact (h.and (suite.trial_isOf tries)).mono (fun _ ht => ht.2) fun _ he => he

/-- In words the search for the direction of a sphere starts after four words. -/
theorem SphereLine.runsOut_iff {g : G} : RunsOut (Binary f) tries g ↔
    (Draw.direction tries : Draw G (Binary f) (Vec3 (Binary f))).run (advance g 4) =
      .error .noDirection := by
  have hcenter := Draw.vector_run (S := Binary f) g 0
  have hradius := Draw.scalar_run (S := Binary f) g 3
  constructor
  · rintro ⟨_, _, g1, g2, hv, hx, hout⟩
    cases hcenter.symm.trans hv
    cases hradius.symm.trans hx
    exact hout
  · exact fun hout => ⟨_, _, _, _, hcenter, hradius, hout⟩

/-- On a counter that counts the tries of a whole period do not run out. -/
theorem Counter.not_runsOut {c : Counter} (hc : c.step ≠ 0) (suite : Suite) (count : Nat) :
    ¬ suite.RunsOut (Binary f) Draw.period count c := by
  rintro ⟨ts, c1, -, hdrawn, hout⟩
  obtain ⟨hstep, -⟩ := hdrawn.forall
    (suite.trial_ensures (I := fun c' : Counter => c'.step = c.step) (fun _ h => h) _) rfl
  rw [SphereLine.runsOut_iff, advance_eq, hstep] at hout
  obtain ⟨d, c2, hrun⟩ := exists_direction_run (f := f) (c := ⟨c1.wordAfter 4, c.step⟩) hc
  cases hrun.symm.trans hout

/-! ## The same scalar again and again -/

namespace TriangleLine

variable {S : Type} [Scalar S]

/-- The configuration that is drawn from a source that yields only one scalar. -/
def constant (x : S) : TriangleLine S :=
  let y := Scalar.four * x - Scalar.two
  ⟨⟨.uniform x, .uniform x, .uniform x⟩, y, y, y, .uniform x⟩

theorem draw_run_of_constant {G : Type} [ScalarSource G S] {g : G} {x : S}
    (h : ScalarSource.next g = (x, g)) :
    (draw : Draw G S (TriangleLine S)).run g = .ok (constant x, g) := by
  have hscalar := Draw.scalar_run_of_constant h
  have hvector := Draw.vector_run_of_constant h
  have hcoordinate : (coordinate : Draw G S S).run g = .ok (Scalar.four * x - Scalar.two, g) := by
    rw [coordinate, Draw.run_bind_of_ok _ hscalar]
    rfl
  rw [draw, Draw.run_bind_of_ok _ hvector, Draw.run_bind_of_ok _ hvector,
    Draw.run_bind_of_ok _ hvector, Draw.run_bind_of_ok _ hcoordinate,
    Draw.run_bind_of_ok _ hcoordinate, Draw.run_bind_of_ok _ hcoordinate,
    Draw.run_bind_of_ok _ hvector]
  rfl

/-- A triangle without area is missed by both lines, although the base is on it. -/
theorem constant_half_mismatch (f : Format) :
    let t := (constant (Scalar.ofBinary64 (unitFraction 0x8000000000000000) : Binary f)).trial
    t.segment.mismatch = some .falseNegative ∧ t.ray.mismatch = some .falseNegative := by
  cases f <;> decide +kernel

/-- One half again and again draws the same trial again and again. -/
theorem trial_ensures_half (f : Format) (tries : Nat) :
    (Suite.triangleLine.trial tries : Draw Counter (Binary f) (Trial (Binary f))).Ensures
      (· = ⟨0x8000000000000000, 0⟩) (fun t => t.segment.mismatch = some .falseNegative ∧
        t.ray.mismatch = some .falseNegative) (fun _ => False) := by
  rintro _ rfl
  exact .inl ⟨_, _, Draw.run_bind_of_ok _ (draw_run_of_constant (Counter.next_constant _)), rfl,
    constant_half_mismatch f⟩

end TriangleLine

theorem Trial.count_mismatches_of_missed {S : Type} {ts : List (Trial S)}
    (h : ∀ t ∈ ts, t.segment.mismatch = some .falseNegative ∧
      t.ray.mismatch = some .falseNegative) :
    (mismatches ts).count .falseNegative = 2 * ts.length := by
  induction ts with
  | nil => rfl
  | cons t ts ih =>
    obtain ⟨⟨hs, hr⟩, hts⟩ := List.forall_mem_cons.1 h
    rw [mismatches, List.flatMap_cons, ← mismatches, hs, hr, List.count_append, ih hts,
      List.length_cons]
    simp only [Option.toList_some, List.singleton_append, List.count_cons_self, List.count_nil]
    omega

/-! ## Whole suites -/

namespace Plan

variable {plan : Plan} {g : G}

/-- Fewer than `2 ^ 31` trials are judged, unless the tries to find a direction run out. -/
theorem runSuite_cases (hfew : plan.trials.toNat < 2 ^ 31) (tries : Nat) (suite : Suite)
    (f : Format) (g : G) :
    (∃ (p : Progress (Binary f)) (g' : G) (failed : UInt32) (v : Logged Report),
      (suite.trials tries plan.trials.toNat 0 (.start plan.trials)).run g = .ok (p, g') ∧
      plan.runSuite tries suite f g = .ok (⟨v.result, p.events.map (.trial f) ++ v.log⟩, g') ∧
      IsVerdict plan.maxFailureRate suite f p.tally failed v ∧
      p.tally.trials = plan.trials ∧ failed.toNat = p.tally.total ∧
      p.tally.total ≤ 2 * plan.trials.toNat ∧
      (suite ≠ .triangleLine → p.tally.notEquivalent = 0)) ∨
    (plan.runSuite tries suite f g = .error ⟨f, .noDirection⟩ ∧ suite.IsSphere ∧
      suite.RunsOut (Binary f) tries plan.trials.toNat g) := by
  have hsize : UInt32.size = 2 * 2 ^ 31 := by decide
  rcases Suite.trials_run_cases plan.trials.toNat 0 (.start plan.trials)
    (suite.trial_ensures (I := fun _ : G => True) (fun _ _ => trivial) tries) trivial with
    ⟨p, g', ts, hrun, hlen, -, hts, hgrows⟩ |
    ⟨_, ts, g', hrun, ⟨hsphere, rfl⟩, hlen, hdrawn, hnext⟩ | ⟨-, ts, m, hlen, -, hfull⟩
  · have htotal : p.tally.total ≤ 2 * plan.trials.toNat := by
      rw [hgrows.total_of_start, ← hlen]
      exact Trial.length_mismatches_le ts
    have hpoint : suite ≠ .triangleLine → p.tally.notEquivalent = 0 := by
      intro hs
      refine UInt32.toNat_inj.1 ((hgrows.count_of_start .notEquivalent).trans ?_)
      refine List.count_eq_zero.2 fun hmem => ?_
      obtain ⟨t, ht, c, hc, hm⟩ := Trial.exists_of_mem_mismatches hmem
      exact (hts t ht).point hs c hc hm
    rcases judge_cases plan.maxFailureRate suite f p.tally with
      ⟨failed, v, -, hfailed, hjudge, hv⟩ | ⟨-, hmany⟩
    · exact .inl ⟨p, g', failed, v, hrun, runSuite_of_ok hrun hjudge, hv, hgrows.trials, hfailed,
        htotal, hpoint⟩
    · omega
  · exact .inr ⟨runSuite_of_error hrun, hsphere, ts, g', hlen, hdrawn,
      Suite.runsOut_of_trial_run hsphere hnext⟩
  · have hle := (List.count_le_length (a := m)).trans (Trial.length_mismatches_le ts)
    rw [Progress.count_start] at hfull
    omega

/-- One half again and again breaks down `2 ^ 31` trials of triangles, and more of them. -/
theorem runSuite_triangleLine_half (hmany : 2 ^ 31 ≤ plan.trials.toNat) (tries : Nat) (f : Format) :
    plan.runSuite tries .triangleLine f (Counter.mk 0x8000000000000000 0) =
      .error ⟨f, .overflow .overflow⟩ := by
  have hsize : UInt32.size = 2 * 2 ^ 31 := by decide
  rcases Suite.trials_run_cases plan.trials.toNat 0 (.start plan.trials)
    (TriangleLine.trial_ensures_half f tries) rfl with ⟨p, g', ts, hrun, hlen, -, hts, hgrows⟩ |
    ⟨_, _, _, -, hnever, -⟩ | ⟨hrun, -⟩
  · -- two missed hits for each trial do not fit the counter
    have hcount := hgrows.count_of_start .falseNegative
    rw [Trial.count_mismatches_of_missed hts] at hcount
    have hlt := (p.tally.count .falseNegative).toNat_lt_size
    omega
  · exact hnever.elim
  · exact runSuite_of_error hrun

/-- Fewer than `2 ^ 31` trials of a suite are judged, with any rate and with words of any source,
unless the tries to find a direction run out in one of the trials that are run
(`Verification::run_suite`). All of them are counted, with no more than two mismatches for each of
them, and only triangles can be hit at the wrong point. From `2 ^ 31` trials on the suite of
triangles breaks down if the word `2 ^ 63` is drawn again and again. -/
theorem runSuite_total (plan : Plan) (tries : Nat) (f : Format) :
    (plan.trials.toNat < 2 ^ 31 → ∀ (suite : Suite) (g : G),
      (∃ (p : Progress (Binary f)) (g' : G) (failed : UInt32) (v : Logged Report),
        (suite.trials tries plan.trials.toNat 0 (.start plan.trials)).run g = .ok (p, g') ∧
        plan.runSuite tries suite f g =
          .ok (⟨v.result, p.events.map (.trial f) ++ v.log⟩, g') ∧
        IsVerdict plan.maxFailureRate suite f p.tally failed v ∧
        p.tally.trials = plan.trials ∧ failed.toNat = p.tally.total ∧
        p.tally.total ≤ 2 * plan.trials.toNat ∧
        (suite ≠ .triangleLine → p.tally.notEquivalent = 0)) ∨
      (plan.runSuite tries suite f g = .error ⟨f, .noDirection⟩ ∧ suite.IsSphere ∧
        suite.RunsOut (Binary f) tries plan.trials.toNat g)) ∧
    (2 ^ 31 ≤ plan.trials.toNat →
      plan.runSuite tries .triangleLine f (Counter.mk 0x8000000000000000 0) =
        .error ⟨f, .overflow .overflow⟩) ∧
    (Breakdown.mk f (.overflow .overflow)).message = "attempt to add with overflow" ∧
    ∀ t : Triangle (Binary f), t.edge 0 = .ok t.edge0 ∧ t.edge 1 = .ok t.edge1 := by
  refine ⟨?_, ?_, rfl, fun _ => ⟨rfl, rfl⟩⟩
  · exact fun hfew suite g => runSuite_cases hfew tries suite f g
  · exact fun hmany => runSuite_triangleLine_half hmany tries f

/-- Three trials of triangles and of spheres with words that are spread over their range, and too
many trials of one triangle. -/
theorem runSuite_total_counter :
    (∃ (v : Logged Report) (g : Counter),
      runSuite ⟨3, 0, 0, []⟩ 1 .triangleLine .single Counter.spread = .ok (v, g)) ∧
    (∃ (v : Logged Report) (g : Counter),
      runSuite ⟨3, 0, 0, []⟩ Draw.period .sphereBroadside .double Counter.spread = .ok (v, g)) ∧
    runSuite ⟨0x80000000, 0, 0, []⟩ 1 .triangleLine .double (Counter.mk 0x8000000000000000 0) =
      .error ⟨.double, .overflow .overflow⟩ := by
  refine ⟨?_, ?_, ?_⟩
  · rcases (runSuite_total ⟨3, 0, 0, []⟩ 1 .single).1 (by decide) .triangleLine Counter.spread with
      ⟨_, g, _, _, -, h, -⟩ | ⟨-, hs, -⟩
    · exact ⟨_, g, h⟩
    · rcases hs with hs | hs <;> cases hs
  · rcases (runSuite_total ⟨3, 0, 0, []⟩ Draw.period .double).1 (by decide) .sphereBroadside
      Counter.spread with ⟨_, g, _, _, -, h, -⟩ | ⟨-, -, hout⟩
    · exact ⟨_, g, h⟩
    · exact absurd hout (Counter.not_runsOut (by decide) _ _)
  · exact (runSuite_total (G := Counter) ⟨0x80000000, 0, 0, []⟩ 1 .double).2.1 (by decide)

end Plan

end HitTest
