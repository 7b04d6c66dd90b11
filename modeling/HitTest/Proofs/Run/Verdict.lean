import HitTest.Run.Plan
import HitTest.Proofs.Trial.History

/-!
# Verdicts on a suite (`run_suite`)

A verdict is passed when the mismatches of a suite can be added up. It is a report, or a failure if
there are too many mismatches or a case on the boundary is answered wrong, and its log says so: the
counts come first, a failure is the last entry, and a warning stands between them if mismatches are
tolerated.
-/

namespace HitTest

/-! ## Sums -/

namespace Tally

/-- The mismatches can be added up, or there are too many. -/
theorem failed_cases (t : Tally) : (∃ n, t.failed = .ok n ∧ n.toNat = t.total) ∨
    t.failed = .error .overflow ∧ UInt32.size ≤ t.total := by
  unfold failed total
  rcases addCounts_cases t.falsePositives t.falseNegatives with ⟨a, ha, hsum⟩ | ⟨ha, hsum⟩
  · rw [ha, ← hsum]
    rcases addCounts_cases a t.notEquivalent with ⟨n, hn, hsum'⟩ | ⟨hn, hsum'⟩
    · exact .inl ⟨n, hn, hsum'⟩
    · exact .inr ⟨hn, hsum'⟩
  · rw [ha]
    exact .inr ⟨rfl, by omega⟩

/-- Mismatches that can be added up can be compared with any rate. -/
theorem exceeds_of_failed {t : Tally} {n : UInt32} (h : t.failed = .ok n) (rate : Binary64) :
    ∃ b, t.exceeds rate = .ok b := by
  rw [exceeds, h]
  exact ⟨_, rfl⟩

end Tally

/-! ## Verdicts -/

namespace Plan

variable {rate : Binary64} {suite : Suite} {f : Format} {tally : Tally} {failed : UInt32}

/-- What the log says of counted mismatches that do not exceed the rate. -/
def tolerance (suite : Suite) (f : Format) (tally : Tally) (failed : UInt32) : List Entry :=
  .counted suite f failed tally.trials ::
    if 0 < failed then [.tolerated suite f tally] else []

/-- What the log says of the cases on the boundary. -/
def remarks (f : Format) : List Entry :=
  (Boundary.notes (Binary f)).map fun n => .trial f (.note n)

/-- The verdicts on a tally. -/
inductive IsVerdict (rate : Binary64) (suite : Suite) (f : Format) (tally : Tally)
    (failed : UInt32) : Logged Report → Prop
  /-- There are too many mismatches. -/
  | rateExceeded {v : Logged Report} : tally.exceeds rate = .ok true →
      v.result = .error (.rateExceeded suite f failed tally.trials) →
      v.log.toList = [.counted suite f failed tally.trials, .rateExceeded suite f tally] →
        IsVerdict rate suite f tally failed v
  /-- A case on the boundary is answered wrong. -/
  | caseFailed {v : Logged Report} {number : Nat} : tally.exceeds rate = .ok false →
      suite = .triangleLine → Boundary.firstFailure? (Binary f) = some number →
      v.result = .error (.boundaryCase suite f number) →
      v.log.toList = tolerance suite f tally failed ++ remarks f ++
        [.caseFailed suite f number] → IsVerdict rate suite f tally failed v
  /-- All is well, or tolerated. -/
  | passed {v : Logged Report} : tally.exceeds rate = .ok false →
      v.result = .ok ⟨suite, f, tally⟩ →
      v.log.toList = tolerance suite f tally failed ++
        (if suite = .triangleLine then remarks f else []) → IsVerdict rate suite f tally failed v

/-- A tally that does not exceed the rate is judged by the cases on the boundary. -/
theorem judge_of_tolerated (suite : Suite) (f : Format) (hfailed : tally.failed = .ok failed)
    (hrate : tally.exceeds rate = .ok false) : ∃ log : Array Entry,
      log.toList = tolerance suite f tally failed ∧ judge rate suite f tally =
        if suite = .triangleLine then
          match Boundary.firstFailure? (Binary f) with
          | some number => .ok ⟨.error (.boundaryCase suite f number),
              (log ++ remarks f).push (.caseFailed suite f number)⟩
          | none => .ok ⟨.ok ⟨suite, f, tally⟩, log ++ remarks f⟩
        else .ok ⟨.ok ⟨suite, f, tally⟩, log⟩ := by
  refine ⟨if 0 < failed then #[.counted suite f failed tally.trials, .tolerated suite f tally]
    else #[.counted suite f failed tally.trials], ?_, ?_⟩
  · rw [tolerance]
    split <;> rfl
  · simp only [judge, hfailed, hrate, bind, Except.bind, Bool.false_eq_true, if_false]
    rfl

/-- A verdict is passed on every tally whose mismatches can be added up. -/
theorem judge_cases (rate : Binary64) (suite : Suite) (f : Format) (tally : Tally) :
    (∃ failed v, tally.failed = .ok failed ∧ failed.toNat = tally.total ∧
      judge rate suite f tally = .ok v ∧ IsVerdict rate suite f tally failed v) ∨
    judge rate suite f tally = .error .overflow ∧ UInt32.size ≤ tally.total := by
  rcases tally.failed_cases with ⟨failed, hfailed, htotal⟩ | ⟨hfailed, htotal⟩
  · obtain ⟨b, hrate⟩ := Tally.exceeds_of_failed hfailed rate
    refine .inl ⟨failed, ?_⟩
    cases b with
    | true =>
      have hjudge : judge rate suite f tally = .ok
          ⟨.error (.rateExceeded suite f failed tally.trials),
            #[.counted suite f failed tally.trials, .rateExceeded suite f tally]⟩ := by
        simp only [judge, hfailed, hrate, bind, Except.bind, if_true]
        rfl
      exact ⟨_, hfailed, htotal, hjudge, .rateExceeded hrate rfl rfl⟩
    | false =>
      obtain ⟨log, hlog, hjudge⟩ := judge_of_tolerated suite f hfailed hrate
      rw [hjudge]
      by_cases hs : suite = .triangleLine
      · rw [if_pos hs]
        cases hfirst : Boundary.firstFailure? (Binary f) with
        | some number =>
          refine ⟨_, hfailed, htotal, rfl, .caseFailed hrate hs hfirst rfl ?_⟩
          simp [hlog]
        | none =>
          refine ⟨_, hfailed, htotal, rfl, .passed hrate rfl ?_⟩
          simp [hlog, hs]
      · rw [if_neg hs]
        refine ⟨_, hfailed, htotal, rfl, .passed hrate rfl ?_⟩
        simp [hlog, hs]
  · refine .inr ⟨?_, htotal⟩
    rw [judge, hfailed]
    rfl

/-! ## One suite -/

variable {G : Type} [WordSource G] {plan : Plan} {tries : Nat} {g g' : G}

theorem runSuite_of_error {e : Fault (Binary f)}
    (h : (suite.trials tries plan.trials.toNat 0 (.start plan.trials)).run g = .error e) :
    plan.runSuite tries suite f g = .error ⟨f, e⟩ := by
  rw [runSuite]
  simp only [h]

/-- The log of a suite has the events of its trials, and then the verdict. -/
theorem runSuite_of_ok {p : Progress (Binary f)} {v : Logged Report}
    (h : (suite.trials tries plan.trials.toNat 0 (.start plan.trials)).run g = .ok (p, g'))
    (hv : judge plan.maxFailureRate suite f p.tally = .ok v) :
    plan.runSuite tries suite f g =
      .ok (⟨v.result, p.events.map (.trial f) ++ v.log⟩, g') := by
  rw [runSuite]
  simp only [h, hv]

end Plan

end HitTest
