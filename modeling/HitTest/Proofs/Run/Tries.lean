import HitTest.Proofs.Run.Total
import HitTest.Proofs.Run.Words

/-!
# Enough tries

A search for a direction is given a number of tries, and what it finds is the same with more of
them. So is what a trial, a suite and a whole run come to. If every search that a suite gets to
ends, some number of tries is enough for all of its trials, and its report does not depend on how
many more there are.
-/

namespace HitTest

open WordSource (advance)

/-! ## More tries -/

section More

variable {G S : Type} [Scalar S] [ScalarSource G S] {g g' : G} {tries more : Nat} {suite : Suite}

theorem SphereLine.draw_run_mono (hle : tries ≤ more) {c : SphereLine S}
    (h : (draw tries : Draw G S (SphereLine S)).run g = .ok (c, g')) :
    (draw more : Draw G S (SphereLine S)).run g = .ok (c, g') := by
  obtain ⟨center, g1, hcenter⟩ := Draw.exists_vector_run (S := S) g
  obtain ⟨x, g2, hx⟩ := Draw.exists_scalar_run (S := S) g1
  rw [draw, Draw.run_bind_of_ok _ hcenter, Draw.run_bind_of_ok _ hx] at h ⊢
  dsimp only at h ⊢
  split at h
  · cases h
  · obtain ⟨d, g3, hd, h⟩ := Draw.exists_of_run_bind_eq_ok h
    rw [Draw.run_bind_of_ok _ (Draw.direction_run_mono hle hd)]
    exact h

namespace Suite

theorem trial_run_mono (hle : tries ≤ more) {t : Trial S}
    (h : (suite.trial tries : Draw G S (Trial S)).run g = .ok (t, g')) :
    (suite.trial more : Draw G S (Trial S)).run g = .ok (t, g') := by
  cases suite with
  | triangleLine => exact h
  | sphereBroadside =>
    obtain ⟨c, g1, hc, h⟩ := Draw.exists_of_run_bind_eq_ok h
    exact (Draw.run_bind_of_ok _ (SphereLine.draw_run_mono hle hc)).trans h
  | sphereEndpoint =>
    obtain ⟨c, g1, hc, h⟩ := Draw.exists_of_run_bind_eq_ok h
    exact (Draw.run_bind_of_ok _ (SphereLine.draw_run_mono hle hc)).trans h
  | boxLine => exact h

theorem Drawn.mono (hle : tries ≤ more) {ts : List (Trial S)} (h : suite.Drawn tries g ts g') :
    suite.Drawn more g ts g' := by
  induction h with
  | nil g => exact .nil g
  | cons ht _ ih => exact .cons (trial_run_mono hle ht) ih

end Suite

end More

section Report

variable {G : Type} [WordSource G] {plan : Plan} {g g' : G} {tries more : Nat} {suite : Suite}
  {f : Format}

theorem Suite.trials_run_mono (hle : tries ≤ more) {count first : Nat} {p p' : Progress (Binary f)}
    (h : (suite.trials tries count first p).run g = .ok (p', g')) :
    (suite.trials more count first p).run g = .ok (p', g') := by
  have hend := suite.trials_run_ending tries count first p g
  rw [h] at hend
  cases hend with
  | counted hlen hts hok => exact hlen ▸ trials_run_of_drawn (hts.mono hle) hok

namespace Plan

/-- With more tries a suite comes to the same report and leaves the same source. -/
theorem runSuite_mono (hle : tries ≤ more) {r : Logged Report}
    (h : plan.runSuite tries suite f g = .ok (r, g')) :
    plan.runSuite more suite f g = .ok (r, g') := by
  rw [runSuite] at h ⊢
  split at h
  · cases h
  · rename_i hrun
    rw [Suite.trials_run_mono hle hrun]
    exact h

theorem runAll_mono (hle : tries ≤ more) {outcome : Logged (Array Report)}
    (todo : List (Suite × Format)) : ∀ (reports : Array Report) (log : Array Entry) (g : G),
    plan.runAll tries reports log g todo = .ok outcome →
      plan.runAll more reports log g todo = .ok outcome := by
  induction todo with
  | nil => exact fun _ _ _ h => h
  | cons step todo ih =>
    intro reports log g h
    rw [runAll] at h ⊢
    split at h
    · cases h
    · rename_i hsuite
      rw [runSuite_mono hle hsuite]
      exact h
    · rename_i hsuite
      rw [runSuite_mono hle hsuite]
      exact ih _ _ _ h

/-- The outcome of a run is the same with more tries. -/
theorem run_mono (hle : tries ≤ more) {outcome : Logged (Array Report)}
    (h : plan.run tries = .ok outcome) : plan.run more = .ok outcome := by
  rw [run] at h ⊢
  cases hall : plan.runAll tries #[] #[.started plan.trials plan.seed,
      .tolerance plan.maxFailureRate] (ChaCha.ofSeed plan.seed) plan.steps with
  | error b =>
    rw [hall] at h
    cases h
  | ok inner =>
    rw [hall] at h
    rw [runAll_mono hle _ _ _ _ hall]
    exact h

end Plan

end Report

/-! ## Searches that end -/

variable {G : Type} [WordSource G] {g : G} {suite : Suite} {f : Format} {count : Nat}

/-- Every search for a direction that some trials of a suite get to ends. A sphere takes four words
before. -/
def Suite.SearchesEnd (suite : Suite) (f : Format) (count : Nat) (g : G) : Prop :=
  suite.IsSphere → ∀ (tries : Nat) (ts : List (Trial (Binary f))) (g1 : G), ts.length < count →
    suite.Drawn tries g ts g1 →
      ∃ (d : Vec3 (Binary f)) (g2 : G), Draw.DirectionFound (advance g1 4) d g2

/-- A trial whose search ends is drawn with some number of tries. -/
theorem Suite.exists_trial_run (h : suite.SearchesEnd f (count + 1) g) :
    ∃ (tries : Nat) (t : Trial (Binary f)) (g1 : G), (suite.trial tries).run g = .ok (t, g1) := by
  obtain ⟨tries, hfound⟩ : ∃ tries, suite.IsSphere → ¬ SphereLine.RunsOut (Binary f) tries g := by
    by_cases hs : suite.IsSphere
    · obtain ⟨d, g2, tries, hd⟩ := h hs 0 [] g count.succ_pos (.nil g)
      refine ⟨tries, fun _ hout => ?_⟩
      rw [SphereLine.runsOut_iff] at hout
      cases hd.symm.trans hout
    · exact ⟨0, fun hsphere => absurd hsphere hs⟩
  rcases suite.trial_ensures (I := fun _ : G => True) (fun _ _ => trivial) tries g trivial with
    ⟨t, g1, ht, -⟩ | ⟨_, ht, hsphere, rfl⟩
  · exact ⟨tries, t, g1, ht⟩
  · exact absurd (Suite.runsOut_of_trial_run hsphere ht) (hfound hsphere)

/-- Trials whose searches end are all drawn with some number of tries. -/
theorem Suite.exists_drawn : ∀ {count : Nat} {g : G}, suite.SearchesEnd f count g →
    ∃ (enough : Nat) (ts : List (Trial (Binary f))) (g' : G),
      ts.length = count ∧ suite.Drawn enough g ts g'
  | 0, g, _ => ⟨0, [], g, rfl, .nil g⟩
  | count + 1, g, h => by
    obtain ⟨tries, t, g1, ht⟩ := Suite.exists_trial_run h
    -- what the rest of the trials get to, the whole run gets to with the tries of both
    have hrest : suite.SearchesEnd f count g1 := fun hs tries' ts g2 hlt hts =>
      h hs (max tries tries') (t :: ts) g2 (Nat.succ_lt_succ hlt)
        (.cons (trial_run_mono (Nat.le_max_left ..) ht) (hts.mono (Nat.le_max_right ..)))
    obtain ⟨enough, ts, g', hlen, hts⟩ := Suite.exists_drawn hrest
    exact ⟨max tries enough, t :: ts, g', congrArg (· + 1) hlen,
      .cons (trial_run_mono (Nat.le_max_left ..) ht) (hts.mono (Nat.le_max_right ..))⟩

namespace Plan

/-- If the searches of fewer than `2 ^ 31` trials end, some number of tries is enough for a report,
and with more of them it is the same one. -/
theorem exists_enough_tries {plan : Plan} (hfew : plan.trials.toNat < 2 ^ 31)
    (hends : suite.SearchesEnd f plan.trials.toNat g) :
    ∃ (enough : Nat) (r : Logged Report) (g' : G), ∀ tries, enough ≤ tries →
      plan.runSuite tries suite f g = .ok (r, g') := by
  obtain ⟨enough, ts, g', hlen, hts⟩ := Suite.exists_drawn hends
  have hfit : ∀ m, (Trial.mismatches ts).count m < UInt32.size := by
    intro m
    have hle := (List.count_le_length (a := m)).trans (Trial.length_mismatches_le ts)
    have hsize : UInt32.size = 2 * 2 ^ 31 := by decide
    omega
  obtain ⟨p, hrun, -⟩ := Suite.exists_trials_run_start hts hfit 0 plan.trials
  rw [hlen] at hrun
  rcases runSuite_cases hfew enough suite f g with ⟨_, g1, _, v, -, hok, -⟩ | ⟨herror, -⟩
  · exact ⟨enough, _, g1, fun tries hle => runSuite_mono hle hok⟩
  · rw [runSuite] at herror
    simp only [hrun] at herror
    split at herror <;> cases herror

/-- On a counter that counts the tries of a whole period are enough. -/
theorem exists_runSuite_counter {plan : Plan} (hfew : plan.trials.toNat < 2 ^ 31) {c : Counter}
    (hc : c.step ≠ 0) (suite : Suite) (f : Format) : ∃ (r : Logged Report) (c' : Counter),
      ∀ tries, Draw.period ≤ tries → plan.runSuite tries suite f c = .ok (r, c') := by
  rcases runSuite_cases hfew Draw.period suite f c with ⟨_, c', _, v, -, hok, -⟩ | ⟨-, -, hout⟩
  · exact ⟨_, c', fun tries hle => runSuite_mono hle hok⟩
  · exact absurd hout (Counter.not_runsOut hc suite _)

end Plan

end HitTest
