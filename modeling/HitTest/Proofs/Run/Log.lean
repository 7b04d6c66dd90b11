import HitTest.Proofs.Run.Verdict
import HitTest.Proofs.Trial.Drawn

/-!
# The log of a run

Counts and log are kept in separate places, and a run writes to the log in many. They tell the same
nevertheless: the log of a run is its opening, the logs of the suites that were run, and its closing,
and the log of a suite has a message for every mismatch that was counted, in the order of the trials,
its counts once, a warning if mismatches are tolerated, and an error if it fails.
-/

namespace HitTest

/-! ## The wording of a mismatch -/

/-- What a message says after its first colon and before the next exclamation mark. -/
def labelOf (message : String) : List Char :=
  ((message.toList.dropWhile (· ≠ ':')).drop 2).takeWhile (· ≠ '!')

theorem Subject.colon_not_mem_kind {S : Type} (s : Subject S) : ':' ∉ s.kind.toList := by
  rcases s with ⟨_, _, _, _, p⟩ | ⟨_, _, p⟩ | ⟨_, p⟩ <;> cases p <;> simp [kind]

theorem Mismatch.mark_not_mem_label (m : Mismatch) : '!' ∉ m.label.toList := by
  cases m <;> simp [label]

theorem colon_not_mem_digits (n : Nat) : ':' ∉ (toString n).toList := by
  intro h
  have hdigit := Nat.isDigit_of_mem_toDigits (by decide) (by decide) (Nat.toList_repr ▸ h)
  revert hdigit
  decide

/-- The message of a mismatch carries the label of its kind. -/
theorem labelOf_mismatchMessage {S : Type} [ToString S] (n : Nat) (m : Mismatch) (s : Subject S) :
    labelOf (mismatchMessage n m s) = m.label.toList := by
  have hbefore : ∀ c ∈ "Failed ".toList ++ s.kind.toList ++ " intersection test #".toList ++
      (toString n).toList, decide (c ≠ ':') = true := by
    intro c hc
    rw [decide_eq_true_iff]
    rintro rfl
    simp only [List.mem_append] at hc
    rcases hc with ((hc | hc) | hc) | hc
    · revert hc
      decide
    · exact s.colon_not_mem_kind hc
    · revert hc
      decide
    · exact colon_not_mem_digits n hc
  have hlabel : ∀ c ∈ m.label.toList, decide (c ≠ '!') = true := by
    intro c hc
    rw [decide_eq_true_iff]
    rintro rfl
    exact m.mark_not_mem_label hc
  have htext : (mismatchMessage n m s).toList =
      ("Failed ".toList ++ s.kind.toList ++ " intersection test #".toList ++
        (toString n).toList) ++
          (':' :: ' ' :: (m.label.toList ++ '!' :: '\n' :: s.description.toList)) := by
    have e : mismatchMessage n m s = "Failed " ++ s.kind ++ " intersection test #" ++ toString n ++
        ": " ++ m.label ++ "!\n" ++ s.description := rfl
    rw [e]
    simp
  rw [labelOf, htext, List.dropWhile_append_of_pos hbefore,
    List.dropWhile_cons_of_neg (by decide), List.drop_succ_cons, List.drop_succ_cons,
    List.drop_zero, List.takeWhile_append_of_pos hlabel, List.takeWhile_cons_of_neg (by decide),
    List.append_nil]

theorem Mismatch.label_injective {m k : Mismatch} (h : m.label.toList = k.label.toList) : m = k := by
  revert h
  cases m <;> cases k <;> decide

/-! ## Entries -/

/-- The number of the trial of a mismatch, and whether it was found with a ray. -/
def TrialEvent.place? {S : Type} : TrialEvent S → Option (Nat × Bool)
  | .note _ => none
  | .mismatch n _ s => some (n, s.isRay)

/-- A place is in an earlier trial, or that of the segment where the other is that of the ray. -/
def Precedes (a b : Nat × Bool) : Prop := a.1 < b.1 ∨ a.1 = b.1 ∧ a.2 = false ∧ b.2 = true

namespace Trial

variable {S : Type} {suite : Suite} {t : Trial S} {n : Nat}

/-- The places of the mismatches of a trial. -/
def places (n : Nat) (t : Trial S) : List (Nat × Bool) :=
  (t.segment.mismatch.map fun _ => (n, false)).toList ++
    (t.ray.mismatch.map fun _ => (n, true)).toList

theorem fst_of_mem_places : ∀ a ∈ t.places n, a.1 = n := by
  unfold places
  cases t.segment.mismatch <;> cases t.ray.mismatch <;> simp

theorem pairwise_places : (t.places n).Pairwise Precedes := by
  unfold places
  cases t.segment.mismatch <;> cases t.ray.mismatch <;> simp [Precedes]

/-- What trials add to the events of a run tells the places of their mismatches. -/
theorem filterMap_place_history (h : t.IsOf suite) (ts : List (Trial S)) :
    (history n (t :: ts)).filterMap TrialEvent.place? =
      t.places n ++ (history (n + 1) ts).filterMap TrialEvent.place? := by
  have hevents : ∀ (c : Comparison S), (c.events n).filterMap TrialEvent.place? =
      (c.mismatch.map fun _ => (n, c.subject.isRay)).toList := by
    intro c
    rw [c.filterMap_events fun _ => rfl]
    cases c.mismatch <;> rfl
  rw [history, numbered, List.flatMap_cons, List.flatMap_cons, List.filterMap_append,
    List.filterMap_append, hevents, hevents, h.segment, h.ray, places, List.append_assoc]
  rfl

/-- The mismatches of trials of a suite are kept in the order of the trials, that of the segment
before that of the ray. -/
theorem pairwise_history {ts : List (Trial S)} (h : ∀ t ∈ ts, t.IsOf suite) : ∀ first : Nat,
    ((history first ts).filterMap TrialEvent.place?).Pairwise Precedes ∧
      ∀ a ∈ (history first ts).filterMap TrialEvent.place?, first ≤ a.1 := by
  induction ts with
  | nil => exact fun first => ⟨List.Pairwise.nil, by simp [history, numbered]⟩
  | cons t ts ih =>
    intro first
    obtain ⟨ht, hts⟩ := List.forall_mem_cons.1 h
    obtain ⟨hpairs, hlater⟩ := ih hts (first + 1)
    rw [filterMap_place_history ht]
    constructor
    · refine List.pairwise_append.2 ⟨pairwise_places, hpairs, fun a ha b hb => .inl ?_⟩
      rw [fst_of_mem_places a ha]
      exact hlater b hb
    · intro a ha
      rcases List.mem_append.1 ha with ha | ha
      · exact Nat.le_of_eq (fst_of_mem_places a ha).symm
      · exact Nat.le_of_succ_le (hlater a ha)

end Trial

/-- The entries of a level. -/
def ofLevel (l : Level) (log : List Entry) : List Entry := log.filter fun e => e.level = l

theorem ofLevel_append (l : Level) (log log' : List Entry) :
    ofLevel l (log ++ log') = ofLevel l log ++ ofLevel l log' := List.filter_append ..

/-- What a message of a mismatch is about. -/
def Entry.place? : Entry → Option (Nat × Bool)
  | .trial _ e => e.place?
  | _ => none

section Trials

variable {f : Format} (events : List (TrialEvent (Binary f)))

/-- The events of trials are entries of two levels only. -/
theorem ofLevel_trials {l : Level} (htrace : l ≠ .trace) (hdebug : l ≠ .debug) :
    ofLevel l (events.map (.trial f)) = [] := by
  refine List.filter_eq_nil_iff.2 fun e he => ?_
  obtain ⟨e, -, rfl⟩ := List.mem_map.1 he
  rw [decide_eq_true_iff]
  cases e with
  | note n => exact htrace.symm
  | mismatch n m s => exact hdebug.symm

/-- The messages that debug are those of mismatches. -/
theorem ofLevel_debug_trials : ofLevel .debug (events.map (.trial f)) =
    (events.filter fun e => e.mismatch?.isSome).map (.trial f) := by
  induction events with
  | nil => rfl
  | cons e events ih =>
    cases e with
    | note n => exact ih
    | mismatch n m s => exact congrArg (Entry.trial f (.mismatch n m s) :: ·) ih

/-- They are about the places of the mismatches. -/
theorem places_trials : (ofLevel .debug (events.map (.trial f))).map Entry.place? =
    (events.filterMap TrialEvent.place?).map some := by
  rw [ofLevel_debug_trials]
  induction events with
  | nil => rfl
  | cons e events ih =>
    cases e with
    | note n => exact ih
    | mismatch n m s => exact congrArg (some (n, s.isRay) :: ·) ih

theorem message_mismatch (n : Nat) (m : Mismatch) (s : Subject (Binary f)) :
    (Entry.trial f (.mismatch n m s)).message = mismatchMessage n m s := by
  rfl

/-- There is one with the label of a kind for each mismatch of that kind. -/
theorem length_labels_trials (m : Mismatch) :
    ((ofLevel .debug (events.map (.trial f))).filter fun e =>
      labelOf e.message = m.label.toList).length =
        (events.filterMap TrialEvent.mismatch?).count m := by
  rw [ofLevel_debug_trials]
  induction events with
  | nil => rfl
  | cons e events ih =>
    cases e with
    | note n => exact ih
    | mismatch n k s =>
      have hlabel : labelOf (Entry.trial f (.mismatch n k s)).message = m.label.toList ↔ k = m := by
        rw [message_mismatch, labelOf_mismatchMessage]
        exact ⟨Mismatch.label_injective, fun h => h ▸ rfl⟩
      change ((Entry.trial f (.mismatch n k s) :: (events.filter fun e => e.mismatch?.isSome).map
        (.trial f)).filter fun e => labelOf e.message = m.label.toList).length =
          (k :: events.filterMap TrialEvent.mismatch?).count m
      rw [List.filter_cons, List.count_cons, ← ih]
      by_cases hk : k = m
      · rw [if_pos (decide_eq_true (hlabel.2 hk)), if_pos (beq_iff_eq.2 hk), List.length_cons]
      · rw [if_neg (mt (hlabel.1 ∘ of_decide_eq_true) hk), if_neg (mt beq_iff_eq.1 hk)]
        rfl

end Trials

namespace Plan

variable {rate : Binary64} {suite : Suite} {f : Format} {tally : Tally} {failed : UInt32}

/-! ## The log of a verdict -/

/-- An error is the last entry of a log, and the only error. -/
def EndsWithError (log : List Entry) : Prop :=
  ∃ init last, log = init ++ [last] ∧ last.level = .error ∧ ofLevel .error init = []

theorem ofLevel_remarks (f : Format) {l : Level} (h : l ≠ .trace) : ofLevel l (remarks f) = [] := by
  refine List.filter_eq_nil_iff.2 fun e he => ?_
  obtain ⟨n, -, rfl⟩ := List.mem_map.1 he
  rw [decide_eq_true_iff]
  exact h.symm

theorem ofLevel_tolerance (suite : Suite) (f : Format) (tally : Tally) (failed : UInt32) :
    ofLevel .debug (tolerance suite f tally failed) = [] ∧
    ofLevel .info (tolerance suite f tally failed) = [.counted suite f failed tally.trials] ∧
    ofLevel .warn (tolerance suite f tally failed) =
      (if 0 < failed then [.tolerated suite f tally] else []) ∧
    ofLevel .error (tolerance suite f tally failed) = [] := by
  rw [tolerance]
  split <;> exact ⟨rfl, rfl, rfl, rfl⟩

/-- A log states the counts once, warns of mismatches if they are tolerated, and debugs nothing. -/
structure StatesTally (rate : Binary64) (suite : Suite) (f : Format) (tally : Tally)
    (failed : UInt32) (log : List Entry) : Prop where
  debug : ofLevel .debug log = []
  info : ofLevel .info log = [.counted suite f failed tally.trials]
  warn : 0 < failed → tally.exceeds rate = .ok false → ofLevel .warn log = [.tolerated suite f tally]
  silent : ¬ (0 < failed ∧ tally.exceeds rate = .ok false) → ofLevel .warn log = []

/-- A tally that is tolerated is stated first. -/
theorem StatesTally.of_tolerated (hrate : tally.exceeds rate = .ok false) {rest : List Entry}
    (hrest : ∀ l ∈ [Level.debug, .info, .warn], ofLevel l rest = []) :
    StatesTally rate suite f tally failed (tolerance suite f tally failed ++ rest) := by
  obtain ⟨hdebug, hinfo, hwarn, -⟩ := ofLevel_tolerance suite f tally failed
  refine ⟨?_, ?_, fun hpos _ => ?_, fun hnot => ?_⟩
  · rw [ofLevel_append, hdebug, hrest _ (by decide), List.append_nil]
  · rw [ofLevel_append, hinfo, hrest _ (by decide), List.append_nil]
  · rw [ofLevel_append, hwarn, hrest _ (by decide), List.append_nil, if_pos hpos]
  · rw [ofLevel_append, hwarn, hrest _ (by decide), List.append_nil,
      if_neg fun hpos => hnot ⟨hpos, hrate⟩]

/-- The log of a verdict states the tally, and has an error only if the verdict is a failure. -/
theorem IsVerdict.statesTally {v : Logged Report} (h : IsVerdict rate suite f tally failed v) :
    StatesTally rate suite f tally failed v.log.toList ∧
      (∀ report, v.result = .ok report → ofLevel .error v.log.toList = []) ∧
        ∀ failure, v.result = .error failure → EndsWithError v.log.toList := by
  obtain ⟨-, -, -, herror⟩ := ofLevel_tolerance suite f tally failed
  cases h with
  | rateExceeded hrate hresult hlog =>
    rw [hlog, hresult]
    refine ⟨⟨rfl, rfl, fun _ hnot => ?_, fun _ => rfl⟩, ?_, fun _ _ => ⟨[_], _, rfl, rfl, rfl⟩⟩
    · rw [hrate] at hnot
      cases hnot
    · rintro report ⟨⟩
  | caseFailed hrate hs hfirst hresult hlog =>
    rw [hlog, hresult]
    refine ⟨?_, ?_, fun _ _ => ⟨_, _, rfl, rfl, ?_⟩⟩
    · -- what comes after the tally are traces and the error
      rw [List.append_assoc]
      refine .of_tolerated hrate fun l hl => ?_
      have htrace : l ≠ .trace := by
        rintro rfl
        simp at hl
      rw [ofLevel_append, ofLevel_remarks f htrace]
      simp only [List.mem_cons, List.not_mem_nil, or_false] at hl
      rcases hl with rfl | rfl | rfl <;> rfl
    · rintro report ⟨⟩
    · rw [ofLevel_append, herror, ofLevel_remarks f (by decide), List.append_nil]
  | passed hrate hresult hlog =>
    have hremarks : ∀ l : Level, l ≠ .trace →
        ofLevel l (if suite = .triangleLine then remarks f else []) = [] := by
      intro l hl
      split
      · exact ofLevel_remarks f hl
      · rfl
    rw [hlog, hresult]
    refine ⟨?_, fun _ _ => ?_, ?_⟩
    · refine .of_tolerated hrate fun l hl => hremarks l ?_
      rintro rfl
      simp at hl
    · rw [ofLevel_append, herror, hremarks _ (by decide), List.append_nil]
    · rintro failure ⟨⟩

theorem EndsWithError.append {log log' : List Entry} (h : ofLevel .error log = [])
    (h' : EndsWithError log') : EndsWithError (log ++ log') := by
  obtain ⟨init, last, rfl, hlast, hinit⟩ := h'
  refine ⟨log ++ init, last, (List.append_assoc ..).symm, hlast, ?_⟩
  rw [ofLevel_append, h, hinit, List.append_nil]

/-! ## Suites that were run -/

/-- A suite in one precision, with the source it was run with, what was counted and kept, the source
that was left, and the verdict. -/
structure Step (G : Type) where
  suite : Suite
  format : Format
  before : G
  progress : Progress (Binary format)
  after : G
  verdict : Logged Report

variable {G : Type} [WordSource G] {plan : Plan} {tries : Nat}

namespace Step

/-- What a suite adds to the log of a run. -/
def log (s : Step G) : List Entry :=
  s.progress.events.toList.map (.trial s.format) ++ s.verdict.log.toList

/-- The suite was run as planned. -/
structure IsRun (plan : Plan) (tries : Nat) (s : Step G) : Prop where
  trials : (s.suite.trials tries plan.trials.toNat 0 (.start plan.trials)).run s.before =
    .ok (s.progress, s.after)
  judge : judge plan.maxFailureRate s.suite s.format s.progress.tally = .ok s.verdict

/-- The log of a suite tells what was counted. There is a message for each mismatch of each kind,
in the order of the trials, with that of the segment of a trial before that of the ray. The counts
are stated once, and there is one warning if there are mismatches that do not exceed the rate. -/
structure IsTold (rate : Binary64) (s : Step G) (failed : UInt32) : Prop where
  sum : s.progress.tally.failed = .ok failed
  labels : ∀ m, ((ofLevel .debug s.log).filter fun e =>
    labelOf e.message = m.label.toList).length = (s.progress.tally.count m).toNat
  places : ∃ places : List (Nat × Bool),
    (ofLevel .debug s.log).map Entry.place? = places.map some ∧ places.Pairwise Precedes
  info : ofLevel .info s.log = [.counted s.suite s.format failed s.progress.tally.trials]
  warn : 0 < failed → s.progress.tally.exceeds rate = .ok false →
    ofLevel .warn s.log = [.tolerated s.suite s.format s.progress.tally]
  silent : ¬ (0 < failed ∧ s.progress.tally.exceeds rate = .ok false) → ofLevel .warn s.log = []

variable {s : Step G}

theorem IsRun.exists_isVerdict (h : s.IsRun plan tries) : ∃ failed,
    s.progress.tally.failed = .ok failed ∧
      IsVerdict plan.maxFailureRate s.suite s.format s.progress.tally failed s.verdict := by
  rcases judge_cases plan.maxFailureRate s.suite s.format s.progress.tally with
    ⟨failed, v, hfailed, -, hjudge, hv⟩ | ⟨hjudge, -⟩
  · rw [h.judge] at hjudge
    cases hjudge
    exact ⟨failed, hfailed, hv⟩
  · rw [h.judge] at hjudge
    cases hjudge

theorem IsRun.isTold (h : s.IsRun plan tries) : ∃ failed, s.IsTold plan.maxFailureRate failed := by
  obtain ⟨failed, hfailed, hverdict⟩ := h.exists_isVerdict
  obtain ⟨⟨hdebug, hinfo, hwarn, hsilent⟩, -⟩ := hverdict.statesTally
  obtain ⟨ts, -, hdrawn, hgrows⟩ := Suite.exists_drawn_of_trials_run h.trials
  have hlog : s.log = (Trial.history 0 ts).map (.trial s.format) ++ s.verdict.log.toList := by
    rw [log, hgrows.events_of_start]
  refine ⟨failed, hfailed, fun m => ?_, ?_, ?_, fun hpos hrate => ?_, fun hnot => ?_⟩ <;>
    rw [hlog, ofLevel_append]
  · rw [hdebug, List.append_nil, length_labels_trials, Trial.filterMap_history,
      hgrows.count_of_start]
  · rw [hdebug, List.append_nil, places_trials]
    have hof := (hdrawn.forall (s.suite.trial_isOf tries) trivial).2
    exact ⟨_, rfl, (Trial.pairwise_history hof 0).1⟩
  · rw [ofLevel_trials _ (by decide) (by decide), hinfo, List.nil_append]
  · rw [ofLevel_trials _ (by decide) (by decide), hwarn hpos hrate, List.nil_append]
  · rw [ofLevel_trials _ (by decide) (by decide), hsilent hnot, List.nil_append]

/-- The log of a suite has an error only if the suite fails, and then at the end. -/
theorem IsRun.errors (h : s.IsRun plan tries) :
    (∀ report, s.verdict.result = .ok report → ofLevel .error s.log = []) ∧
      ∀ failure, s.verdict.result = .error failure → EndsWithError s.log := by
  obtain ⟨failed, -, hverdict⟩ := h.exists_isVerdict
  obtain ⟨-, hok, herr⟩ := hverdict.statesTally
  have htrials : ofLevel .error (s.progress.events.toList.map (.trial s.format)) = [] :=
    ofLevel_trials _ (by decide) (by decide)
  refine ⟨fun report hr => ?_, fun failure hr => (herr failure hr).append htrials⟩
  rw [log, ofLevel_append, htrials, hok report hr, List.append_nil]

end Step

/-! ## Runs -/

/-- Suites are run one after the other, from a source, until one fails or all have passed. -/
inductive Executes (plan : Plan) (tries : Nat) : List (Suite × Format) → G → List (Step G) →
    Except Failure (List Report) → Prop
  | done (g : G) : Executes plan tries [] g [] (.ok [])
  | failed {s : Step G} {failure : Failure} (rest : List (Suite × Format)) : s.IsRun plan tries →
      s.verdict.result = .error failure →
        Executes plan tries ((s.suite, s.format) :: rest) s.before [s] (.error failure)
  | passed {s : Step G} {report : Report} {rest : List (Suite × Format)} {steps : List (Step G)}
      {result : Except Failure (List Report)} : s.IsRun plan tries →
      s.verdict.result = .ok report → Executes plan tries rest s.after steps result →
        Executes plan tries ((s.suite, s.format) :: rest) s.before (s :: steps)
          (result.map (report :: ·))

theorem Executes.forall_isRun {todo : List (Suite × Format)} {g : G} {steps : List (Step G)}
    {result : Except Failure (List Report)} (h : plan.Executes tries todo g steps result) :
    ∀ s ∈ steps, s.IsRun plan tries := by
  induction h with
  | done => simp
  | failed _ hs _ => simpa using hs
  | passed hs _ _ ih => exact List.forall_mem_cons.2 ⟨hs, ih⟩

/-- A run has an error in its log only if it fails, and then at the end. -/
theorem Executes.errors {todo : List (Suite × Format)} {g : G} {steps : List (Step G)}
    {result : Except Failure (List Report)} (h : plan.Executes tries todo g steps result) :
    (∀ reports, result = .ok reports → ofLevel .error (steps.flatMap Step.log) = []) ∧
      ∀ failure, result = .error failure → EndsWithError (steps.flatMap Step.log) := by
  induction h with
  | done => exact ⟨fun _ _ => rfl, by rintro _ ⟨⟩⟩
  | failed _ hs hr =>
    refine ⟨by rintro _ ⟨⟩, fun _ _ => ?_⟩
    simpa using hs.errors.2 _ hr
  | @passed s report rest steps result hs hr _ ih =>
    rw [List.flatMap_cons]
    have hnone := hs.errors.1 report hr
    cases result with
    | ok reports =>
      refine ⟨fun _ _ => ?_, by rintro _ ⟨⟩⟩
      rw [ofLevel_append, hnone, ih.1 reports rfl, List.append_nil]
    | error failure => exact ⟨by rintro _ ⟨⟩, fun _ _ => (ih.2 failure rfl).append hnone⟩

/-- A suite that does not break down is a step of a run. -/
theorem exists_step_of_runSuite {suite : Suite} {f : Format} {g g' : G} {r : Logged Report}
    (h : plan.runSuite tries suite f g = .ok (r, g')) : ∃ (p : Progress (Binary f))
      (v : Logged Report), Step.IsRun plan tries ⟨suite, f, g, p, g', v⟩ ∧
        r.result = v.result ∧ r.log.toList = Step.log ⟨suite, f, g, p, g', v⟩ := by
  cases htrials : (suite.trials tries plan.trials.toNat 0 (.start plan.trials) :
      Draw G (Binary f) (Progress (Binary f))).run g with
  | error e =>
    rw [runSuite_of_error htrials] at h
    cases h
  | ok r =>
    obtain ⟨p, g''⟩ := r
    cases hjudge : judge plan.maxFailureRate suite f p.tally with
    | error e =>
      simp only [runSuite, htrials, hjudge] at h
      cases h
    | ok v =>
      rw [runSuite_of_ok htrials hjudge] at h
      cases h
      exact ⟨p, v, ⟨htrials, hjudge⟩, rfl, by simp [Step.log]⟩

/-- Running suites one after the other adds their logs, and the reports of those that passed. -/
theorem executes_of_runAll (todo : List (Suite × Format)) : ∀ (reports : Array Report)
    (log : Array Entry) (g : G) (outcome : Logged (Array Report)),
    plan.runAll tries reports log g todo = .ok outcome → ∃ steps result,
      plan.Executes tries todo g steps result ∧
        outcome.log.toList = log.toList ++ steps.flatMap Step.log ∧
          outcome.result.map Array.toList = result.map (reports.toList ++ ·) := by
  -- reports and log so far grow with every suite that passes
  induction todo with
  | nil =>
    intro reports log g outcome h
    cases h
    exact ⟨[], .ok [], .done g, by simp, by simp [Except.map]⟩
  | cons next rest ih =>
    intro reports log g outcome h
    obtain ⟨suite, f⟩ := next
    rw [runAll] at h
    cases hsuite : plan.runSuite tries suite f g with
    | error b =>
      rw [hsuite] at h
      cases h
    | ok r =>
      obtain ⟨⟨verdict, entries⟩, g'⟩ := r
      obtain ⟨p, v, hrun, hresult, hlog⟩ := exists_step_of_runSuite hsuite
      simp only at hresult hlog
      subst hresult
      rw [hsuite] at h
      cases hv : v.result with
      | error failure =>
        simp only [hv] at h
        cases h
        exact ⟨[_], _, .failed rest hrun hv, by simp [hlog], rfl⟩
      | ok report =>
        simp only [hv] at h
        obtain ⟨steps, result, hexec, hlogs, hresults⟩ := ih _ _ _ _ h
        refine ⟨_, _, .passed hrun hv hexec, ?_, ?_⟩
        · simp [hlogs, hlog]
        · rw [hresults]
          cases result <;> simp [Except.map]

/-- What a run says before the suites. -/
def opening (plan : Plan) : List Entry :=
  [.started plan.trials plan.seed, .tolerance plan.maxFailureRate]

/-- The log and the result of a run tell the same (`Verification::run`). The log is the opening, the
logs of the suites that were run, one after the other from the source of the seed, and if all passed
the number of their reports. The log of each suite tells what was counted. There is an error in the
log if and only if the run fails; then it is the last entry, and the only error. -/
theorem run_log (plan : Plan) (tries : Nat) {outcome : Logged (Array Report)}
    (h : plan.run tries = .ok outcome) : ∃ (steps : List (Step ChaCha))
      (result : Except Failure (List Report)),
      plan.Executes tries plan.steps (ChaCha.ofSeed plan.seed) steps result ∧
      (∀ s ∈ steps, ∃ failed, s.IsTold plan.maxFailureRate failed) ∧
      (∀ reports, outcome.result = .ok reports →
        result = .ok reports.toList ∧ ofLevel .error outcome.log.toList = [] ∧
          outcome.log.toList = plan.opening ++ steps.flatMap Step.log ++ [.passed reports.size]) ∧
      ∀ failure, outcome.result = .error failure →
        result = .error failure ∧ EndsWithError outcome.log.toList ∧
          outcome.log.toList = plan.opening ++ steps.flatMap Step.log := by
  change (plan.runAll tries #[] plan.opening.toArray (ChaCha.ofSeed plan.seed) plan.steps).bind _ =
    _ at h
  cases hall : plan.runAll tries #[] plan.opening.toArray (ChaCha.ofSeed plan.seed) plan.steps with
  | error b =>
    rw [hall] at h
    cases h
  | ok inner =>
    obtain ⟨steps, result, hexec, hlog, hresult⟩ := executes_of_runAll _ _ _ _ _ hall
    rw [List.toList_toArray] at hlog
    have hopening : ofLevel .error plan.opening = [] := rfl
    refine ⟨steps, result, hexec, fun s hs => (hexec.forall_isRun s hs).isTold, ?_⟩
    rw [hall] at h
    cases hinner : inner.result with
    | error failure =>
      simp only [Except.bind, hinner] at h
      cases h
      obtain rfl : result = .error failure := by
        rw [hinner] at hresult
        cases result <;> cases hresult
        rfl
      refine ⟨by rintro _ ⟨⟩, ?_⟩
      rintro _ ⟨⟩
      refine ⟨rfl, ?_, hlog⟩
      rw [hlog]
      exact (hexec.errors.2 failure rfl).append hopening
    | ok reports =>
      simp only [Except.bind, hinner] at h
      cases h
      obtain rfl : result = .ok reports.toList := by
        rw [hinner] at hresult
        cases result <;> cases hresult
        rfl
      have hnone := hexec.errors.1 _ rfl
      refine ⟨?_, by rintro _ ⟨⟩⟩
      rintro _ ⟨⟩
      refine ⟨rfl, ?_, ?_⟩
      · rw [Array.toList_push, hlog, ofLevel_append, ofLevel_append, hopening, hnone]
        rfl
      · rw [Array.toList_push, hlog]

/-- From a certain seed the first trial of triangles is wrong in 32 bits, with both lines. The run
fails there if nothing may be wrong, and passes with a warning if everything may. -/
theorem run_log_triangleLine :
    (∃ (outcome : Logged (Array Report)) (steps : List (Step ChaCha)),
      run ⟨1, 18989, 0, [.triangleLine]⟩ 1 = .ok outcome ∧
        outcome.result = .error (.rateExceeded .triangleLine .single 2 1) ∧
        (ofLevel .debug outcome.log.toList).length = 2 ∧ EndsWithError outcome.log.toList ∧
        outcome.log.toList = opening ⟨1, 18989, 0, [.triangleLine]⟩ ++ steps.flatMap Step.log ∧
        ∀ s ∈ steps, ∃ failed, s.IsTold 0 failed) ∧
    ∃ (outcome : Logged (Array Report)) (steps : List (Step ChaCha)),
      run ⟨1, 18989, .ofNat 2, [.triangleLine]⟩ 1 = .ok outcome ∧
        (ofLevel .debug outcome.log.toList).length = 2 ∧
        (ofLevel .warn outcome.log.toList).length = 1 ∧ ofLevel .error outcome.log.toList = [] ∧
        outcome.log.toList =
          opening ⟨1, 18989, .ofNat 2, [.triangleLine]⟩ ++ steps.flatMap Step.log ++ [.passed 2] ∧
        ∀ s ∈ steps, ∃ failed, s.IsTold (.ofNat 2) failed := by
  constructor
  · have hfailed : ((run ⟨1, 18989, 0, [.triangleLine]⟩ 1).toOption.bind fun outcome =>
        match outcome.result with
        | .ok _ => none
        | .error failure => some (failure, (ofLevel .debug outcome.log.toList).length)) =
          some (.rateExceeded .triangleLine .single 2 1, 2) := by decide +kernel
    cases hrun : run ⟨1, 18989, 0, [.triangleLine]⟩ 1 with
    | error b =>
      rw [hrun] at hfailed
      cases hfailed
    | ok outcome =>
      obtain ⟨steps, _, -, htold, -, hfails⟩ := run_log _ _ hrun
      rw [hrun] at hfailed
      cases hresult : outcome.result with
      | ok reports => simp [hresult, Except.toOption] at hfailed
      | error failure =>
        obtain ⟨rfl, hdebug⟩ : failure = .rateExceeded .triangleLine .single 2 1 ∧
            (ofLevel .debug outcome.log.toList).length = 2 := by
          simpa [hresult, Except.toOption] using hfailed
        obtain ⟨-, hends, hlog⟩ := hfails _ hresult
        exact ⟨outcome, steps, rfl, hresult, hdebug, hends, hlog, htold⟩
  · have hpassed : ((run ⟨1, 18989, .ofNat 2, [.triangleLine]⟩ 1).toOption.bind fun outcome =>
        outcome.result.toOption.map fun reports =>
          (reports.size, (ofLevel .debug outcome.log.toList).length,
            (ofLevel .warn outcome.log.toList).length)) = some (2, 2, 1) := by decide +kernel
    cases hrun : run ⟨1, 18989, .ofNat 2, [.triangleLine]⟩ 1 with
    | error b =>
      rw [hrun] at hpassed
      cases hpassed
    | ok outcome =>
      obtain ⟨steps, _, -, htold, hpasses, -⟩ := run_log _ _ hrun
      rw [hrun] at hpassed
      cases hresult : outcome.result with
      | error failure => simp [hresult, Except.toOption] at hpassed
      | ok reports =>
        obtain ⟨hsize, hdebug, hwarn⟩ : reports.size = 2 ∧
            (ofLevel .debug outcome.log.toList).length = 2 ∧
            (ofLevel .warn outcome.log.toList).length = 1 := by
          simpa [hresult, Except.toOption] using hpassed
        obtain ⟨-, hnone, hlog⟩ := hpasses _ hresult
        exact ⟨outcome, steps, rfl, hdebug, hwarn, hnone, hsize ▸ hlog, htold⟩

end Plan

end HitTest
