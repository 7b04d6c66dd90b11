import HitTest.Proofs.Binary.Text
import HitTest.Proofs.Run.Finite

/-!
# Mismatches can be replayed

The message of a mismatch shows a configuration, but neither the point at which the query was to hit
nor whether it was to hit at all. Both can be computed again from what is shown, to the bit, and so
can the answer of the query.
-/

namespace HitTest

variable {G S : Type}

section Replay

variable [Scalar S]

/-- Where a segment or ray starts. -/
def Probe.start : Probe S → Vec3 S
  | segment s => s.start
  | ray r => r.origin

/-- Whether a parameter is on a segment or ray. -/
def Probe.covers (t : S) : Probe S → Bool
  | segment _ => decide (0 ≤ t) && decide (t ≤ 1)
  | ray _ => decide (0 ≤ t)

/-- What is wrong with the answer to a configuration, computed from the configuration alone. -/
def Subject.replay : Subject S → Option Mismatch
  | triangle u v t tri p =>
    Mismatch.ofPoint
      (decide (0 ≤ u) && decide (0 ≤ v) && decide (u + v ≤ 1) && p.covers t) (tri.pointAt u v)
      (tri.hit? p.line)
  | sphere t s p => Mismatch.ofAnswer (decide (t ≤ s.radius)) (s.meetsLine p.line)
  | box b p => Mismatch.ofAnswer (b.contains p.start) (b.meetsLine p.line)

/-- Both comparisons of a trial can be replayed. -/
def Trial.Replays (t : Trial S) : Prop :=
  t.segment.mismatch = t.segment.subject.replay ∧ t.ray.mismatch = t.ray.subject.replay

theorem TriangleLine.replays_trial (c : TriangleLine S) : c.trial.Replays := by
  refine ⟨?_, rfl⟩
  -- the conditions for the segment are the same, grouped in another way
  change Mismatch.ofPoint (c.onTriangle && decide (0 ≤ c.t) && decide (c.t ≤ 1)) _ _ =
    Mismatch.ofPoint (c.onTriangle && (decide (0 ≤ c.t) && decide (c.t ≤ 1))) _ _
  rw [Bool.and_assoc]
  rfl

theorem SphereLine.replays_trial (c : SphereLine S) (start finish : Vec3 S) :
    (c.trial start finish).Replays := ⟨rfl, rfl⟩

theorem BoxLine.replays_trial (c : BoxLine S) : c.trial.Replays := ⟨rfl, rfl⟩

/-- Whatever a suite draws can be replayed. -/
theorem Suite.trial_replays [ScalarSource G S] (suite : Suite) (tries : Nat) :
    (suite.trial tries : Draw G S (Trial S)).Ensures (fun _ => True) Trial.Replays
      (fun _ => True) := by
  cases suite with
  | triangleLine => exact .bind .any fun c _ => .pure c.replays_trial
  | sphereBroadside =>
    exact .bind .any fun c _ => .bind .any fun _ _ => .bind .any fun _ _ =>
      .pure (c.replays_trial _ _)
  | sphereEndpoint =>
    exact .bind .any fun c _ => .bind .any fun _ _ => .pure (c.replays_trial _ _)
  | boxLine => exact .bind .any fun c _ => .pure c.replays_trial

end Replay

/-! ## Messages -/

/-- A configuration is told in full: its text is that of no other one, and a message about it tells
the number of the trial and what was wrong besides. -/
structure Subject.IsTold [ToString S] (P : S → Prop) (s : Subject S) : Prop where
  all : s.All P
  description : ∀ s' : Subject S, s'.All P → s'.description = s.description → s' = s
  message : ∀ (n n' : Nat) (m m' : Mismatch) (s' : Subject S), s'.All P →
    mismatchMessage n' m' s' = mismatchMessage n m s → n' = n ∧ m' = m ∧ s' = s

theorem Subject.isTold_of_legible [ToString S] {P : S → Prop} (h : Legible P) {s : Subject S}
    (hs : s.All P) : s.IsTold P where
  all := hs
  description _ hs' e := eq_of_description_eq h hs' hs e
  message _ _ _ _ _ hs' e := eq_of_mismatchMessage_eq h hs' hs e

/-- Binary numbers are legible. -/
theorem Binary.legible (f : Format) : Legible fun x : Binary f => x.isNumber = true where
  injective _ _ hx hy e := eq_of_text_eq hx hy e
  plain x _ := x.not_mem_text .coordinate

section Messages

variable [WordSource G] {f : Format}

/-- Whatever a suite draws is finite and can be replayed. -/
theorem Suite.trial_ensures_replay (suite : Suite) (tries : Nat) :
    (suite.trial tries : Draw G (Binary f) (Trial (Binary f))).Ensures (fun _ => True)
      (fun t => t.IsFinite ∧ t.Replays) (fun _ => True) :=
  (suite.trial_isFinite (fun _ _ => trivial) tries).and (suite.trial_replays tries)

theorem Trial.isTold_and_replay [ToString (Binary f)]
    (hlegible : Legible fun x : Binary f => x.isNumber = true) {t : Trial (Binary f)}
    (h : t.IsFinite ∧ t.Replays) : ∀ c ∈ [t.segment, t.ray],
      c.subject.IsTold (·.isNumber = true) ∧ c.mismatch = c.subject.replay := by
  obtain ⟨⟨hsegment, hray⟩, hreplay, hreplay'⟩ := h
  intro c hc
  simp only [List.mem_cons, List.not_mem_nil, or_false] at hc
  rcases hc with rfl | rfl
  · exact ⟨Subject.isTold_of_legible hlegible (hsegment.mono fun _ h => h.1), hreplay⟩
  · exact ⟨Subject.isTold_of_legible hlegible (hray.mono fun _ h => h.1), hreplay'⟩

/-- Let the texts of numbers tell them apart, and leave out what stands between them. Then the
configuration of every comparison of a trial is told in full, and what the comparison shows follows
from the configuration alone. So the messages of a run of trials (`debug!`) say to the bit what each
was about, and to evaluate expectation and query again for what is shown gives the mismatch that is
named. -/
theorem Suite.mismatch_replay [ToString (Binary f)]
    (hlegible : Legible fun x : Binary f => x.isNumber = true) (suite : Suite) (tries : Nat) :
    (∀ (g g' : G) (t : Trial (Binary f)), (suite.trial tries).run g = .ok (t, g') →
      ∀ c ∈ [t.segment, t.ray],
        c.subject.IsTold (·.isNumber = true) ∧ c.mismatch = c.subject.replay) ∧
    ∀ (count first : Nat) (trials : UInt32) (g g' : G) (p : Progress (Binary f)),
      (suite.trials tries count first (.start trials)).run g = .ok (p, g') →
      ∀ (n : Nat) (m : Mismatch) (s : Subject (Binary f)), .mismatch n m s ∈ p.events →
        s.IsTold (·.isNumber = true) ∧ s.replay = some m := by
  have hensures := suite.trial_ensures_replay (G := G) (f := f) tries
  constructor
  · intro g g' t h
    exact Trial.isTold_and_replay hlegible (hensures.of_ok trivial h).2
  · intro count first trials g g' p h n m s hmem
    obtain ⟨ts, -, hdrawn, hgrows⟩ := Suite.exists_drawn_of_trials_run h
    rw [← Array.mem_toList_iff, hgrows.events_of_start] at hmem
    obtain ⟨i, t, -, ht, c, hc, hm, rfl⟩ := Trial.exists_of_mem_history ts first hmem
    have hdrawn := (hdrawn.forall hensures trivial).2 t (List.mem_of_getElem? ht)
    obtain ⟨htold, hreplay⟩ := Trial.isTold_and_replay hlegible hdrawn c hc
    exact ⟨htold, hreplay.symm.trans hm⟩

end Messages

/-- A counter in equal steps draws a triangle whose vertices are on a line, and the point that was
to be hit is missed. -/
theorem Suite.mismatch_replay_counter : ∃ (p : Progress Binary32) (g : Counter) (n : Nat)
    (s : Subject Binary32),
      (Suite.triangleLine.trials 1 1 0 (.start 1)).run (Counter.mk 0 0x1040000000000000) =
        .ok (p, g) ∧
      .mismatch n .falseNegative s ∈ p.events ∧ s.IsTold (·.isNumber = true) ∧
      s.replay = some .falseNegative := by
  have hevents : (((Suite.triangleLine.trials 1 1 0 (.start 1) : Draw Counter Binary32 _).run
      (Counter.mk 0 0x1040000000000000)).toOption.map fun r =>
        r.1.events.toList.filterMap TrialEvent.mismatch?) =
          some [.falseNegative, .falseNegative] := by decide +kernel
  cases hrun : (Suite.triangleLine.trials 1 1 0 (.start 1) : Draw Counter Binary32 _).run
      (Counter.mk 0 0x1040000000000000) with
  | error e =>
    rw [hrun] at hevents
    cases hevents
  | ok r =>
    rw [hrun] at hevents
    have hlabels : r.1.events.toList.filterMap TrialEvent.mismatch? =
        [.falseNegative, .falseNegative] := Option.some.inj hevents
    obtain ⟨e, he, hm⟩ := List.mem_filterMap.1 (hlabels ▸ List.mem_cons_self)
    cases e with
    | note n => cases hm
    | mismatch n m s =>
      obtain rfl := Option.some.inj hm
      replace he := Array.mem_toList_iff.1 he
      exact ⟨r.1, r.2, n, s, rfl, he, (Suite.mismatch_replay (Binary.legible .single)
        .triangleLine 1).2 1 0 1 _ r.2 r.1 hrun n _ s he⟩

end HitTest
