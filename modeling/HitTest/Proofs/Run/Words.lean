import HitTest.Proofs.Random.Advance
import HitTest.Proofs.Run.Log
import HitTest.Random.Counter
import Mathlib.Algebra.GroupWithZero.Nat

/-!
# The words of a trial

All suites of a run share one source, so what one of them takes decides what the next ones draw. A
trial of triangles takes fifteen words and one of boxes nine; a trial of spheres takes three for
every vector that is looked at to find a direction, and a few more. Answers and mismatches make no
difference. It follows that trials can be run in parts, and what is counted adds up.
-/

namespace HitTest

open WordSource (advance)

variable {G S : Type} [WordSource G] [Scalar S] {g g' : G} {n tries : Nat}

/-! ## Configurations -/

namespace TriangleLine

theorem coordinate_run (g : G) (n : Nat) : (coordinate : Draw G S S).run (advance g n) =
    .ok (Scalar.four * Draw.scalarAfter S g n - Scalar.two, advance g (n + 1)) := by
  rw [coordinate, Draw.run_bind_of_ok _ (Draw.scalar_run g n)]
  rfl

theorem eq_of_draw_run {c : TriangleLine S}
    (h : (draw : Draw G S (TriangleLine S)).run (advance g n) = .ok (c, g')) :
    g' = advance g (n + 15) := by
  rw [draw, Draw.run_bind_of_ok _ (Draw.vector_run g n),
    Draw.run_bind_of_ok _ (Draw.vector_run g (n + 3)),
    Draw.run_bind_of_ok _ (Draw.vector_run g (n + 6)),
    Draw.run_bind_of_ok _ (coordinate_run g (n + 9)),
    Draw.run_bind_of_ok _ (coordinate_run g (n + 10)),
    Draw.run_bind_of_ok _ (coordinate_run g (n + 11)),
    Draw.run_bind_of_ok _ (Draw.vector_run g (n + 12))] at h
  cases h
  rfl

end TriangleLine

theorem BoxLine.eq_of_draw_run {c : BoxLine S}
    (h : (draw : Draw G S (BoxLine S)).run (advance g n) = .ok (c, g')) :
    g' = advance g (n + 9) := by
  rw [draw, Draw.run_bind_of_ok _ (Draw.vector_run g n),
    Draw.run_bind_of_ok _ (Draw.vector_run g (n + 3))] at h
  dsimp only at h
  split at h
  · cases h
  · rw [Draw.run_bind_of_ok _ (Draw.vector_run g (n + 6))] at h
    cases h
    rfl

theorem SphereLine.exists_of_draw_run {c : SphereLine S}
    (h : (draw tries : Draw G S (SphereLine S)).run (advance g n) = .ok (c, g')) :
    ∃ k, Draw.IsFirstLong S g (n + 4) k ∧ g' = advance g (n + 5 + 3 * k) := by
  rw [draw, Draw.run_bind_of_ok _ (Draw.vector_run g n),
    Draw.run_bind_of_ok _ (Draw.scalar_run g (n + 3))] at h
  dsimp only at h
  split at h
  · cases h
  · obtain ⟨d, g1, hd, h⟩ := Draw.exists_of_run_bind_eq_ok h
    obtain ⟨k, -, hfirst, rfl, -⟩ := Draw.direction_run_eq_ok_iff.1 hd
    rw [Draw.run_bind_of_ok _ (Draw.scalar_run g (n + 4 + 3 * k))] at h
    cases h
    exact ⟨k, hfirst, congrArg (advance g) (by omega)⟩

/-! ## Trials -/

namespace Suite

/-- The words of a trial, apart from those for a direction. -/
def words : Suite → Nat
  | triangleLine => 15
  | sphereBroadside => 7
  | sphereEndpoint => 6
  | boxLine => 9

/-- The number of vectors that a trial looks at to find a direction, if the words of the trial are
those after a number of words. A sphere takes four words before. -/
def IsTries (S : Type) [Scalar S] (g : G) (n k : Nat) : Suite → Prop
  | triangleLine => k = 0
  | sphereBroadside => Draw.IsFirstLong S g (n + 4) k
  | sphereEndpoint => Draw.IsFirstLong S g (n + 4) k
  | boxLine => k = 0

/-- A trial takes the words of its suite, and three for each vector it looks at. -/
theorem exists_of_trial_run {suite : Suite} {t : Trial S}
    (h : (suite.trial tries : Draw G S (Trial S)).run (advance g n) = .ok (t, g')) :
    ∃ k, suite.IsTries S g n k ∧ g' = advance g (n + (suite.words + 3 * k)) := by
  cases suite with
  | triangleLine =>
    obtain ⟨c, g1, hc, h⟩ := Draw.exists_of_run_bind_eq_ok h
    obtain rfl := TriangleLine.eq_of_draw_run hc
    cases h
    exact ⟨0, rfl, rfl⟩
  | sphereBroadside =>
    obtain ⟨c, g1, hc, h⟩ := Draw.exists_of_run_bind_eq_ok h
    obtain ⟨k, hfirst, rfl⟩ := SphereLine.exists_of_draw_run hc
    rw [Draw.run_bind_of_ok _ (Draw.scalar_run g (n + 5 + 3 * k)),
      Draw.run_bind_of_ok _ (Draw.scalar_run g (n + 5 + 3 * k + 1))] at h
    cases h
    exact ⟨k, hfirst, congrArg (advance g) (by rw [words]; omega)⟩
  | sphereEndpoint =>
    obtain ⟨c, g1, hc, h⟩ := Draw.exists_of_run_bind_eq_ok h
    obtain ⟨k, hfirst, rfl⟩ := SphereLine.exists_of_draw_run hc
    rw [Draw.run_bind_of_ok _ (Draw.scalar_run g (n + 5 + 3 * k))] at h
    cases h
    exact ⟨k, hfirst, congrArg (advance g) (by rw [words]; omega)⟩
  | boxLine =>
    obtain ⟨c, g1, hc, h⟩ := Draw.exists_of_run_bind_eq_ok h
    obtain rfl := BoxLine.eq_of_draw_run hc
    cases h
    exact ⟨0, rfl, rfl⟩

/-! ## Runs of trials -/

/-- The words that trials of a suite take, from the numbers of vectors each of them looks at. -/
def wordsOf (suite : Suite) (ks : List Nat) : Nat := (ks.map (suite.words + 3 * ·)).sum

@[simp] theorem wordsOf_nil (suite : Suite) : suite.wordsOf [] = 0 := rfl

@[simp] theorem wordsOf_cons (suite : Suite) (k : Nat) (ks : List Nat) :
    suite.wordsOf (k :: ks) = suite.words + 3 * k + suite.wordsOf ks := List.sum_cons

/-- Trials that need no direction take the same number of words each. -/
theorem wordsOf_of_forall_eq_zero (suite : Suite) {ks : List Nat} (h : ∀ k ∈ ks, k = 0) :
    suite.wordsOf ks = suite.words * ks.length := by
  induction ks with
  | nil => rfl
  | cons k ks ih =>
    obtain ⟨rfl, hks⟩ := List.forall_mem_cons.1 h
    rw [wordsOf_cons, ih hks, List.length_cons, Nat.mul_succ]
    omega

/-- Trials that are drawn one after the other take the words of each of them, and every trial starts
where those before it end. -/
theorem Drawn.exists_wordsOf {suite : Suite} {ts : List (Trial S)} {g1 : G}
    (h : suite.Drawn tries g1 ts g') : ∀ n, g1 = advance g n → ∃ ks : List Nat,
      ks.length = ts.length ∧ g' = advance g (n + suite.wordsOf ks) ∧
        ∀ i k, ks[i]? = some k → suite.IsTries S g (n + suite.wordsOf (ks.take i)) k := by
  induction h with
  | nil g1 => exact fun n hn => ⟨[], rfl, hn, by simp⟩
  | cons ht hts ih =>
    rintro n rfl
    obtain ⟨k, hk, rfl⟩ := exists_of_trial_run ht
    obtain ⟨ks, hlen, hg', hks⟩ := ih _ rfl
    refine ⟨k :: ks, congrArg (· + 1) hlen, ?_, ?_⟩
    · rw [hg', wordsOf_cons]
      congr 1
      omega
    · rintro (_ | i) k' hi
      · cases hi
        exact hk
      · rw [List.take_succ_cons, wordsOf_cons, ← Nat.add_assoc]
        exact hks i k' hi

/-! ## Runs in parts -/

/-- Trials that are drawn in one go are drawn in two parts. -/
theorem Drawn.exists_of_append {suite : Suite} {ts1 ts2 : List (Trial S)} : ∀ {g : G},
    suite.Drawn tries g (ts1 ++ ts2) g' →
      ∃ g1, suite.Drawn tries g ts1 g1 ∧ suite.Drawn tries g1 ts2 g' := by
  induction ts1 with
  | nil => exact fun h => ⟨_, .nil _, h⟩
  | cons t ts1 ih =>
    rintro g (_ | ⟨ht, hts⟩)
    obtain ⟨g1, h1, h2⟩ := ih hts
    exact ⟨g1, .cons ht h1, h2⟩

theorem Drawn.append {suite : Suite} {ts1 ts2 : List (Trial S)} {g1 : G}
    (h : suite.Drawn tries g ts1 g1) (h' : suite.Drawn tries g1 ts2 g') :
    suite.Drawn tries g (ts1 ++ ts2) g' := by
  induction h with
  | nil => exact h'
  | cons ht _ ih => exact .cons ht (ih h')

/-- Trials that are drawn and can be counted are run. -/
theorem trials_run_of_drawn {suite : Suite} {ts : List (Trial S)} (h : suite.Drawn tries g ts g') :
    ∀ {first : Nat} {p p' : Progress S}, p.addAll (Trial.numbered first ts) = .ok p' →
      (suite.trials tries ts.length first p).run g = .ok (p', g') := by
  induction h with
  | nil g =>
    rintro first p p' ⟨⟩
    rfl
  | @cons g g1 g2 t ts ht _ ih =>
    intro first p p' hadd
    rw [Progress.addAll_numbered_cons] at hadd
    rw [List.length_cons, trials_succ_run_of_drawn _ _ _ ht]
    cases hp : p.addAll (Trial.numbered first [t]) with
    | error e =>
      rw [hp] at hadd
      cases hadd
    | ok p1 =>
      rw [hp] at hadd
      exact ih hadd

/-- A run from the start has drawn its trials and counted their mismatches. -/
theorem exists_drawn_of_trials_run_start {suite : Suite} {count first : Nat} {label : UInt32}
    {p : Progress S} (h : (suite.trials tries count first (.start label)).run g = .ok (p, g')) :
    ∃ ts : List (Trial S), ts.length = count ∧ suite.Drawn tries g ts g' ∧
      ∀ m, (p.tally.count m).toNat = (Trial.mismatches ts).count m := by
  obtain ⟨ts, hlen, hts, hgrows⟩ := exists_drawn_of_trials_run h
  exact ⟨ts, hlen, hts, hgrows.count_of_start⟩

/-- Trials that are drawn are run from the start if their mismatches fit the counters. -/
theorem exists_trials_run_start {suite : Suite} {ts : List (Trial S)}
    (h : suite.Drawn tries g ts g') (hfit : ∀ m, (Trial.mismatches ts).count m < UInt32.size)
    (first : Nat) (label : UInt32) : ∃ p : Progress S,
      (suite.trials tries ts.length first (.start label)).run g = .ok (p, g') ∧
        ∀ m, (p.tally.count m).toNat = (Trial.mismatches ts).count m := by
  cases hadd : (Progress.start label : Progress S).addAll (Trial.numbered first ts) with
  | error e =>
    obtain ⟨-, m, hfull⟩ := Progress.addAll_eq_error hadd
    have hm := hfit m
    rw [Progress.count_start] at hfull
    omega
  | ok p => exact ⟨p, trials_run_of_drawn h hadd, (Progress.grows_of_addAll hadd).count_of_start⟩

/-- What is counted in a run of `a + b` trials is what is counted in one of `a` trials and in one of
`b` trials from where that ends. -/
theorem exists_parts_of_trials_run {suite : Suite} {a b : Nat} {label la lb : UInt32}
    {p : Progress S} (h : (suite.trials tries (a + b) 0 (.start label)).run g = .ok (p, g')) :
    ∃ (pa : Progress S) (g1 : G) (pb : Progress S),
      (suite.trials tries a 0 (.start la)).run g = .ok (pa, g1) ∧
      (suite.trials tries b 0 (.start lb)).run g1 = .ok (pb, g') ∧
      ∀ m, (p.tally.count m).toNat = (pa.tally.count m).toNat + (pb.tally.count m).toNat := by
  obtain ⟨ts, hlen, hts, hcount⟩ := exists_drawn_of_trials_run_start h
  have hfit : ∀ m, (Trial.mismatches (ts.take a)).count m +
      (Trial.mismatches (ts.drop a)).count m = (p.tally.count m).toNat := by
    intro m
    rw [hcount, ← List.count_append, ← Trial.mismatches_append, List.take_append_drop]
  have hlt : ∀ m, (Trial.mismatches (ts.take a)).count m < UInt32.size ∧
      (Trial.mismatches (ts.drop a)).count m < UInt32.size := by
    intro m
    have hfit := hfit m
    have hsize : (p.tally.count m).toNat < UInt32.size := UInt32.toNat_lt_size _
    omega
  rw [← List.take_append_drop a ts] at hts
  obtain ⟨g1, h1, h2⟩ := hts.exists_of_append
  obtain ⟨pa, ha, hca⟩ := exists_trials_run_start h1 (fun m => (hlt m).1) 0 la
  obtain ⟨pb, hb, hcb⟩ := exists_trials_run_start h2 (fun m => (hlt m).2) 0 lb
  rw [List.length_take, hlen, Nat.min_eq_left (Nat.le_add_right a b)] at ha
  rw [List.length_drop, hlen, Nat.add_sub_cancel_left] at hb
  exact ⟨pa, g1, pb, ha, hb, fun m => by rw [hca, hcb, hfit]⟩

/-- If the sums fit the counters, runs of `a` and of `b` trials make one of `a + b`. -/
theorem exists_trials_run_of_parts {suite : Suite} {a b : Nat} {label la lb : UInt32}
    {pa pb : Progress S} {g1 : G} (ha : (suite.trials tries a 0 (.start la)).run g = .ok (pa, g1))
    (hb : (suite.trials tries b 0 (.start lb)).run g1 = .ok (pb, g'))
    (hfit : ∀ m, (pa.tally.count m).toNat + (pb.tally.count m).toNat < UInt32.size) :
    ∃ p : Progress S, (suite.trials tries (a + b) 0 (.start label)).run g = .ok (p, g') ∧
      ∀ m, (p.tally.count m).toNat = (pa.tally.count m).toNat + (pb.tally.count m).toNat := by
  obtain ⟨ts1, rfl, h1, hca⟩ := exists_drawn_of_trials_run_start ha
  obtain ⟨ts2, rfl, h2, hcb⟩ := exists_drawn_of_trials_run_start hb
  have hsum : ∀ m, (Trial.mismatches (ts1 ++ ts2)).count m =
      (pa.tally.count m).toNat + (pb.tally.count m).toNat := by
    intro m
    rw [Trial.mismatches_append, List.count_append, hca, hcb]
  obtain ⟨p, hp, hc⟩ := exists_trials_run_start (h1.append h2) (fun m => by rw [hsum]; exact hfit m)
    0 label
  rw [List.length_append] at hp
  exact ⟨p, hp, fun m => (hc m).trans (hsum m)⟩

end Suite

/-! ## Whole suites -/

namespace Plan

/-- A suite leaves the source further on by the words of its trials, whatever its verdict is. -/
theorem exists_wordsOf_of_runSuite {plan : Plan} {suite : Suite} {f : Format} {r : Logged Report}
    (h : plan.runSuite tries suite f g = .ok (r, g')) : ∃ ks : List Nat,
      ks.length = plan.trials.toNat ∧ g' = advance g (suite.wordsOf ks) ∧
        ∀ i k, ks[i]? = some k → suite.IsTries (Binary f) g (suite.wordsOf (ks.take i)) k := by
  obtain ⟨p, v, hrun, -⟩ := exists_step_of_runSuite h
  obtain ⟨ts, hlen, hts, -⟩ := Suite.exists_drawn_of_trials_run hrun.trials
  obtain ⟨ks, hks, hg', htries⟩ := hts.exists_wordsOf 0 rfl
  rw [Nat.zero_add] at hg'
  refine ⟨ks, hks.trans hlen, hg', fun i k hi => ?_⟩
  have := htries i k hi
  rwa [Nat.zero_add] at this

/-- Without directions it is the same number of words for every trial. -/
theorem eq_advance_of_runSuite {plan : Plan} {suite : Suite} {f : Format} {r : Logged Report}
    (hs : suite = .triangleLine ∨ suite = .boxLine)
    (h : plan.runSuite tries suite f g = .ok (r, g')) :
    g' = advance g (suite.words * plan.trials.toNat) := by
  obtain ⟨ks, hlen, rfl, hks⟩ := exists_wordsOf_of_runSuite h
  have hzero : ∀ k ∈ ks, k = 0 := by
    intro k hk
    obtain ⟨i, hi⟩ := List.mem_iff_getElem?.1 hk
    have htries := hks i k hi
    rcases hs with rfl | rfl <;> exact htries
  rw [Suite.wordsOf_of_forall_eq_zero _ hzero, hlen]

/-- Every suite takes a number of words from its source that does not depend on any answer, on the
rate or on the verdict: fifteen for each trial of triangles and nine for each trial of boxes, and
seven or six for each trial of spheres, together with three for every vector that is looked at,
which are those up to the first one that is long enough in the precision of the suite
(`random_direction`). So trials can be run in parts, the second from where the first ends, and the
counts of the parts add up. -/
theorem runSuite_words (tries : Nat) (f : Format) (g : G) :
    (∀ (plan : Plan) (r : Logged Report) (g' : G),
      (plan.runSuite tries .triangleLine f g = .ok (r, g') →
        g' = advance g (15 * plan.trials.toNat)) ∧
      (plan.runSuite tries .boxLine f g = .ok (r, g') →
        g' = advance g (9 * plan.trials.toNat)) ∧
      (plan.runSuite tries .sphereBroadside f g = .ok (r, g') → ∃ ks : List Nat,
        ks.length = plan.trials.toNat ∧ g' = advance g (ks.map (7 + 3 * ·)).sum ∧
          ∀ i k, ks[i]? = some k →
            Draw.IsFirstLong (Binary f) g (((ks.take i).map (7 + 3 * ·)).sum + 4) k) ∧
      (plan.runSuite tries .sphereEndpoint f g = .ok (r, g') → ∃ ks : List Nat,
        ks.length = plan.trials.toNat ∧ g' = advance g (ks.map (6 + 3 * ·)).sum ∧
          ∀ i k, ks[i]? = some k →
            Draw.IsFirstLong (Binary f) g (((ks.take i).map (6 + 3 * ·)).sum + 4) k)) ∧
    ∀ (suite : Suite) (a b c : UInt32), c.toNat = a.toNat + b.toNat →
      (∀ (p : Progress (Binary f)) (g' : G),
        (suite.trials tries c.toNat 0 (.start c)).run g = .ok (p, g') →
          ∃ (pa : Progress (Binary f)) (g1 : G) (pb : Progress (Binary f)),
            (suite.trials tries a.toNat 0 (.start a)).run g = .ok (pa, g1) ∧
            (suite.trials tries b.toNat 0 (.start b)).run g1 = .ok (pb, g') ∧
            ∀ m, (p.tally.count m).toNat = (pa.tally.count m).toNat + (pb.tally.count m).toNat) ∧
      ∀ (pa : Progress (Binary f)) (g1 : G) (pb : Progress (Binary f)) (g' : G),
        (suite.trials tries a.toNat 0 (.start a)).run g = .ok (pa, g1) →
        (suite.trials tries b.toNat 0 (.start b)).run g1 = .ok (pb, g') →
        (∀ m, (pa.tally.count m).toNat + (pb.tally.count m).toNat < UInt32.size) →
          ∃ p : Progress (Binary f), (suite.trials tries c.toNat 0 (.start c)).run g = .ok (p, g') ∧
            ∀ m, (p.tally.count m).toNat = (pa.tally.count m).toNat + (pb.tally.count m).toNat := by
  refine ⟨fun plan r g' => ⟨?_, ?_, ?_, ?_⟩, fun suite a b c hc => ⟨?_, ?_⟩⟩
  · exact eq_advance_of_runSuite (.inl rfl)
  · exact eq_advance_of_runSuite (.inr rfl)
  · exact exists_wordsOf_of_runSuite
  · exact exists_wordsOf_of_runSuite
  · intro p g' h
    rw [hc] at h
    exact Suite.exists_parts_of_trials_run h
  · intro pa g1 pb g' ha hb hfit
    rw [hc]
    exact Suite.exists_trials_run_of_parts ha hb hfit

/-- A slow counter yields three vectors in 32 bits that are too short before one is long enough. One
whose words are spread over their range runs three trials in one go or in two parts. -/
theorem runSuite_words_counter :
    (∃ (r : Logged Report) (g' : Counter),
      runSuite ⟨1, 0, 0, []⟩ 5 .sphereBroadside .single (Counter.mk 0 0x1000000000000) =
        .ok (r, g') ∧ g' = advance (Counter.mk 0 0x1000000000000) 19) ∧
    ∃ (pa pb p : Progress Binary64) (g1 g2 : Counter),
      (Suite.boxLine.trials 1 1 0 (.start 1)).run Counter.spread = .ok (pa, g1) ∧
      (Suite.boxLine.trials 1 2 0 (.start 2)).run g1 = .ok (pb, g2) ∧
      (Suite.boxLine.trials 1 3 0 (.start 3)).run Counter.spread = .ok (p, g2) ∧
      ∀ m, (p.tally.count m).toNat = (pa.tally.count m).toNat + (pb.tally.count m).toNat := by
  constructor
  · have hfirst : Draw.IsFirstLong Binary32 (Counter.mk 0 0x1000000000000) 4 4 := by
      refine ⟨by decide, by decide +kernel, fun j hj => ?_⟩
      have hcases : j = 0 ∨ j = 1 ∨ j = 2 := by omega
      rcases hcases with rfl | rfl | rfl <;> decide +kernel
    have hok : (runSuite ⟨1, 0, 0, []⟩ 5 .sphereBroadside .single
        (Counter.mk 0 0x1000000000000)).isOk = true := by decide +kernel
    cases hrun : runSuite ⟨1, 0, 0, []⟩ 5 .sphereBroadside .single
        (Counter.mk 0 0x1000000000000) with
    | error b =>
      rw [hrun] at hok
      cases hok
    | ok r =>
      obtain ⟨ks, hlen, hg', hks⟩ :=
        ((runSuite_words 5 .single (Counter.mk 0 0x1000000000000)).1 _ _ _).2.2.1 hrun
      obtain ⟨k, rfl⟩ := List.length_eq_one_iff.1 hlen
      obtain rfl := (hks 0 k rfl).unique hfirst
      exact ⟨_, _, rfl, hg'⟩
  · have hok : ((Suite.boxLine.trials 1 3 0 (.start 3) : Draw Counter Binary64 _).run
        Counter.spread).isOk = true := by decide +kernel
    cases hrun : (Suite.boxLine.trials 1 3 0 (.start 3) : Draw Counter Binary64 _).run
        Counter.spread with
    | error b =>
      rw [hrun] at hok
      cases hok
    | ok r =>
      obtain ⟨pa, g1, pb, ha, hb, hsum⟩ :=
        ((runSuite_words 1 .double Counter.spread).2 .boxLine 1 2 3 (by decide)).1 _ _ hrun
      exact ⟨pa, pb, r.1, g1, r.2, ha, hb, rfl, hsum⟩

end Plan

end HitTest
