import HitTest.Proofs.Random.Ensures
import HitTest.Trial.Suite

/-!
# Trials one after the other

A trial that is drawn and counted leaves the rest of the trials to run from where it ended. Trials
in which nothing is wrong and nothing is remarked leave the progress as it is.
-/

namespace HitTest

/-- Nothing is wrong in either comparison of a trial, and nothing is remarked. -/
structure Trial.IsSilent {S : Type} (t : Trial S) : Prop where
  segment : t.segment.notes = [] ∧ t.segment.mismatch = none
  ray : t.ray.notes = [] ∧ t.ray.mismatch = none

theorem Progress.add_of_silent {S : Type} (p : Progress S) (number : Nat) {c : Comparison S}
    (h : c.notes = [] ∧ c.mismatch = none) : p.add number c = .ok p := by
  simp only [add, h.1, h.2, List.foldl_nil]

namespace Suite

variable {G S : Type} [Scalar S] [ScalarSource G S] {suite : Suite} {tries : Nat}

/-- A trial, and then the rest of the trials. -/
theorem trials_succ_run {g g' : G} {t : Trial S} {p p1 p2 : Progress S} {count first : Nat}
    (ht : (suite.trial tries).run g = .ok (t, g')) (h1 : p.add first t.segment = .ok p1)
    (h2 : p1.add first t.ray = .ok p2) :
    (suite.trials tries (count + 1) first p).run g =
      (suite.trials tries count (first + 1) p2).run g' := by
  rw [trials, Draw.run_bind_of_ok _ ht]
  exact (Draw.run_lift_bind_of_ok _ h1).trans (Draw.run_lift_bind_of_ok _ h2)

/-- If every trial of a suite is drawn and silent, so is a run of any length, from any source. -/
theorem trials_run_of_silent
    (h : ∀ g : G, ∃ (t : Trial S) (g' : G), (suite.trial tries).run g = .ok (t, g') ∧ t.IsSilent)
    (count : Nat) : ∀ (first : Nat) (p : Progress S) (g : G),
      ∃ g' : G, (suite.trials tries count first p).run g = .ok (p, g') := by
  induction count with
  | zero => exact fun _ _ g => ⟨g, rfl⟩
  | succ count ih =>
    intro first p g
    obtain ⟨t, g1, ht, hs⟩ := h g
    obtain ⟨g', hg'⟩ := ih (first + 1) p g1
    exact ⟨g', by rw [trials_succ_run ht (p.add_of_silent first hs.segment)
      (p.add_of_silent first hs.ray), hg']⟩

end Suite

end HitTest
