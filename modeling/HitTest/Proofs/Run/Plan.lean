import HitTest.Proofs.Trial.BoxLine
import HitTest.Random.Counter
import HitTest.Run.Plan

/-!
# Verdicts

A suite in which nothing went wrong passes with every rate that is not below zero. The suite of
boxes always does: its trials are exact.
-/

namespace HitTest

open Binary hiding min max

variable {f : Format} {rate : Binary64}

/-- No share of the trials is exceeded by no mismatches. -/
theorem Tally.exceeds_of_no_mismatch (h : 0 ≤ rate) (trials : UInt32) :
    ({ trials } : Tally).exceeds rate = .ok false := by
  have h0 : (0 : Binary64) ≤ Binary.ofNat trials.toNat := by
    have hr := rounds_ofNat (f := .double) trials.toNat
    exact nonneg_iff.2 ⟨hr.isNumber, hr.value_nonneg (by positivity)⟩
  have hzero : (Binary.ofNat 0 : Binary64) = 0 := rfl
  have hnot : ¬ Binary.ofNat trials.toNat * rate < (Binary.ofNat 0 : Binary64) :=
    hzero ▸ not_mul_neg h0 h
  change Except.ok (decide (Binary.ofNat trials.toNat * rate < (Binary.ofNat 0 : Binary64))) = _
  rw [decide_eq_false hnot]

/-- Only the suite of triangles is asked for more than its tally. -/
theorem Plan.judge_of_no_mismatch (h : 0 ≤ rate) {suite : Suite} (hs : suite ≠ .triangleLine)
    (trials : UInt32) : Plan.judge rate suite f { trials } =
      .ok ⟨.ok ⟨suite, f, { trials }⟩, #[.counted suite f 0 trials]⟩ := by
  have hfailed : ({ trials } : Tally).failed = .ok 0 := rfl
  simp [judge, hfailed, Tally.exceeds_of_no_mismatch h, hs, bind, Except.bind, pure, Except.pure]

namespace Plan

/-- The suite of boxes counts every trial and no mismatch, and remarks nothing, with any source of
words and any number of trials (`aabb::random_trials`). So it passes without tolerance. -/
theorem boxLine_exact {G : Type} [WordSource G] (plan : Plan) (tries : Nat) (f : Format) (g : G) :
    ∃ g' : G,
      (Suite.boxLine.trials tries plan.trials.toNat 0 (.start plan.trials) :
          Draw G (Binary f) (Progress (Binary f))).run g =
        .ok (⟨⟨plan.trials, 0, 0, 0⟩, #[]⟩, g') ∧
      (0 ≤ plan.maxFailureRate → plan.runSuite tries .boxLine f g =
        .ok (⟨.ok ⟨.boxLine, f, ⟨plan.trials, 0, 0, 0⟩⟩, #[.counted .boxLine f 0 plan.trials]⟩,
          g')) := by
  obtain ⟨g', hrun⟩ := Suite.trials_run_of_silent (Suite.boxLine_trial_run (f := f) tries)
    plan.trials.toNat 0 (.start plan.trials) g
  refine ⟨g', hrun, ?_⟩
  intro hrate
  rw [runSuite]
  simp only [hrun]
  have hother : Suite.boxLine ≠ .triangleLine := by decide
  have hjudge := judge_of_no_mismatch (f := f) hrate hother plan.trials
  rw [Progress.start, hjudge]
  simp

/-- Three trials with words that are spread over their range. -/
theorem boxLine_exact_counter : ∃ g' : Counter,
    Plan.runSuite ⟨3, 0, 0, [.boxLine]⟩ 1 .boxLine .single Counter.spread =
        .ok (⟨.ok ⟨.boxLine, .single, ⟨3, 0, 0, 0⟩⟩, #[.counted .boxLine .single 0 3]⟩, g') := by
  obtain ⟨g', -, h⟩ := boxLine_exact ⟨3, 0, 0, [.boxLine]⟩ 1 .single Counter.spread
  exact ⟨g', h (by decide)⟩

end Plan

end HitTest
