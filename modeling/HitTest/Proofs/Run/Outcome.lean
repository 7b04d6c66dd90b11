import HitTest.Proofs.Run.Log
import HitTest.Proofs.Run.Plan

/-!
# The outcome of a run (`Verification::run`)

Each suite of a plan could be run in both precisions, one after the other from the source of the
seed, whatever the verdicts are. The outcome of the run is decided by these steps alone: it passes if
none of them exceeds the rate, and fails with the first one that does. The cases on the boundary are
always answered right, so they make no difference.
-/

namespace HitTest

/-- The query answers all cases on the boundary right. -/
theorem Boundary.firstFailure?_eq_none (f : Format) : firstFailure? (Binary f) = none := by
  cases f <;> decide +kernel

namespace Plan

variable {G : Type} [WordSource G] {plan : Plan} {tries : Nat}

/-! ## One step -/

namespace Step

variable {s : Step G}

/-- There are more mismatches than the plan tolerates. -/
def Exceeds (plan : Plan) (s : Step G) : Prop :=
  s.progress.tally.exceeds plan.maxFailureRate = .ok true

/-- What is reported of a suite that passes. -/
def report (s : Step G) : Report := ⟨s.suite, s.format, s.progress.tally⟩

/-- The tally is one of as many trials as planned. -/
theorem IsRun.trials_eq (h : s.IsRun plan tries) : s.progress.tally.trials = plan.trials := by
  obtain ⟨_, -, -, hgrows⟩ := Suite.exists_drawn_of_trials_run h.trials
  exact hgrows.trials

/-- A suite passes with its report, or it exceeds the rate and fails for that reason. -/
theorem IsRun.cases (h : s.IsRun plan tries) :
    (s.progress.tally.exceeds plan.maxFailureRate = .ok false ∧
      s.verdict.result = .ok s.report) ∨
    (s.Exceeds plan ∧ ∃ failed, s.progress.tally.failed = .ok failed ∧
      s.verdict.result = .error (.rateExceeded s.suite s.format failed plan.trials)) := by
  obtain ⟨failed, hfailed, hverdict⟩ := h.exists_isVerdict
  cases hverdict with
  | rateExceeded hrate hresult _ =>
    rw [h.trials_eq] at hresult
    exact .inr ⟨hrate, failed, hfailed, hresult⟩
  | caseFailed _ _ hfirst _ _ =>
    rw [Boundary.firstFailure?_eq_none] at hfirst
    cases hfirst
  | passed hrate hresult _ => exact .inl ⟨hrate, hresult⟩

theorem IsRun.passes (h : s.IsRun plan tries) (hs : ¬ s.Exceeds plan) :
    s.progress.tally.exceeds plan.maxFailureRate = .ok false ∧
      s.verdict.result = .ok s.report :=
  h.cases.resolve_right fun hexceeds => hs hexceeds.1

theorem IsRun.fails (h : s.IsRun plan tries) (hs : s.Exceeds plan) :
    ∃ failed, s.progress.tally.failed = .ok failed ∧
      s.verdict.result = .error (.rateExceeded s.suite s.format failed plan.trials) := by
  rcases h.cases with ⟨hpasses, -⟩ | ⟨-, hfails⟩
  · rw [Exceeds, hpasses] at hs
    cases hs
  · exact hfails

/-- What is run from a step on. -/
theorem IsRun.runSuite (h : s.IsRun plan tries) :
    ∃ log : Array Entry, log.toList = s.log ∧
      plan.runSuite tries s.suite s.format s.before = .ok (⟨s.verdict.result, log⟩, s.after) :=
  ⟨_, by simp [Step.log], runSuite_of_ok h.trials h.judge⟩

end Step

/-! ## All steps -/

/-- Suites are run one after the other from a source, each from where the one before it ends, whatever
the verdicts are. -/
inductive Chain (plan : Plan) (tries : Nat) : List (Suite × Format) → G → List (Step G) → Prop
  | nil (g : G) : Chain plan tries [] g []
  | cons {s : Step G} {rest : List (Suite × Format)} {steps : List (Step G)} :
      s.IsRun plan tries → Chain plan tries rest s.after steps →
        Chain plan tries ((s.suite, s.format) :: rest) s.before (s :: steps)

namespace Chain

variable {todo : List (Suite × Format)} {g : G} {steps : List (Step G)}

theorem forall_isRun (h : plan.Chain tries todo g steps) : ∀ s ∈ steps, s.IsRun plan tries := by
  induction h with
  | nil => simp
  | cons hs _ ih => exact List.forall_mem_cons.2 ⟨hs, ih⟩

theorem map_eq (h : plan.Chain tries todo g steps) :
    steps.map (fun s => (s.suite, s.format)) = todo := by
  induction h with
  | nil => rfl
  | cons _ _ ih => rw [List.map_cons, ih]

/-- A step that passes is followed by the others. -/
theorem runAll_cons {s : Step G} {rest : List (Suite × Format)} (hs : s.IsRun plan tries)
    (hpasses : ¬ s.Exceeds plan) (reports : Array Report) (log : Array Entry) :
    ∃ log' : Array Entry, log'.toList = log.toList ++ s.log ∧
      plan.runAll tries reports log s.before ((s.suite, s.format) :: rest) =
        plan.runAll tries (reports.push s.report) log' s.after rest := by
  obtain ⟨entries, hlog, hrun⟩ := hs.runSuite
  refine ⟨log ++ entries, by rw [Array.toList_append, hlog], ?_⟩
  rw [runAll, hrun, (hs.passes hpasses).2]

/-- If no step exceeds the rate, all of them are reported. -/
theorem runAll_of_passing (h : plan.Chain tries todo g steps)
    (hpasses : ∀ s ∈ steps, ¬ s.Exceeds plan) : ∀ (reports : Array Report) (log : Array Entry),
      ∃ (reports' : Array Report) (log' : Array Entry),
        plan.runAll tries reports log g todo = .ok ⟨.ok reports', log'⟩ ∧
          reports'.toList = reports.toList ++ steps.map Step.report := by
  induction h with
  | nil g => exact fun reports log => ⟨reports, log, rfl, (List.append_nil _).symm⟩
  | @cons s rest steps hs _ ih =>
    intro reports log
    obtain ⟨hfirst, hrest⟩ := List.forall_mem_cons.1 hpasses
    obtain ⟨log', -, hrun⟩ := runAll_cons hs hfirst reports log
    obtain ⟨reports', log'', hok, hreports⟩ := ih hrest (reports.push s.report) log'
    exact ⟨reports', log'', hrun.trans hok, by simp [hreports]⟩

/-- Otherwise the run is given up at the first step that does. -/
theorem runAll_of_first {before after : List (Step G)} {s : Step G} {failed : UInt32}
    (hsteps : plan.Chain tries todo g steps) (hsplit : steps = before ++ s :: after)
    (hpasses : ∀ b ∈ before, ¬ b.Exceeds plan) (hs : s.Exceeds plan)
    (hfailed : s.progress.tally.failed = .ok failed) :
    ∀ (reports : Array Report) (log : Array Entry), ∃ log' : Array Entry,
      log'.toList = log.toList ++ (before ++ [s]).flatMap Step.log ∧
        plan.runAll tries reports log g todo =
          .ok ⟨.error (.rateExceeded s.suite s.format failed plan.trials), log'⟩ := by
  induction hsteps generalizing before with
  | nil => exact absurd hsplit.symm (by simp)
  | @cons b rest steps hb _ ih =>
    intro reports log
    cases before with
    | nil =>
      cases hsplit
      obtain ⟨n, hn, hresult⟩ := hb.fails hs
      obtain ⟨entries, hlog, hrun⟩ := hb.runSuite
      rw [hfailed] at hn
      cases hn
      refine ⟨log ++ entries, by simp [hlog], ?_⟩
      rw [runAll, hrun, hresult]
    | cons b' before =>
      cases hsplit
      obtain ⟨hfirst, hrest⟩ := List.forall_mem_cons.1 hpasses
      obtain ⟨log', hlog', hrun⟩ := runAll_cons hb hfirst reports log
      obtain ⟨log'', hlog'', hfail⟩ := ih rfl hrest (reports.push b.report) log'
      exact ⟨log'', by simp [hlog'', hlog'], hrun.trans hfail⟩

end Chain

omit [WordSource G] in
/-- Among steps one of which exceeds the rate there is a first one. -/
theorem Step.exists_first {steps : List (Step G)} (h : ∃ s ∈ steps, s.Exceeds plan) :
    ∃ before s after, steps = before ++ s :: after ∧ (∀ b ∈ before, ¬ b.Exceeds plan) ∧
      s.Exceeds plan := by
  induction steps with
  | nil => simp at h
  | cons b steps ih =>
    by_cases hb : b.Exceeds plan
    · exact ⟨[], b, steps, rfl, by simp, hb⟩
    · obtain ⟨before, s, after, rfl, hpasses, hs⟩ := ih (by simpa [hb] using h)
      exact ⟨b :: before, s, after, rfl, List.forall_mem_cons.2 ⟨hb, hpasses⟩, hs⟩

/-! ## Suites that are added at the end -/

theorem Executes.length_eq {todo : List (Suite × Format)} {g : G} {steps : List (Step G)}
    {result : Except Failure (List Report)} {reports : List Report}
    (h : plan.Executes tries todo g steps result) (hok : result = .ok reports) :
    reports.length = todo.length := by
  induction h generalizing reports with
  | done =>
    cases hok
    rfl
  | failed => cases hok
  | @passed _ report _ _ result _ _ _ ih =>
    cases result with
    | error failure => cases hok
    | ok rest =>
      cases hok
      rw [List.length_cons, List.length_cons, ih rfl]

/-- Only trials and rate of a plan matter to the suites that it runs. -/
theorem runAll_congr {plan' : Plan} (htrials : plan.trials = plan'.trials)
    (hrate : plan.maxFailureRate = plan'.maxFailureRate) (todo : List (Suite × Format)) :
    ∀ (reports : Array Report) (log : Array Entry) (g : G),
      plan.runAll tries reports log g todo = plan'.runAll tries reports log g todo := by
  have hsuite : ∀ suite f (g : G),
      plan.runSuite tries suite f g = plan'.runSuite tries suite f g := by
    intro suite f g
    simp only [runSuite, htrials, hrate]
  induction todo with
  | nil => exact fun _ _ _ => rfl
  | cons next rest ih =>
    intro reports log g
    simp only [runAll, hsuite, ih]

/-- After suites that pass, the others are run from a source that does not depend on them. -/
theorem exists_runAll_append {todo : List (Suite × Format)} : ∀ {reports : Array Report}
    {log : Array Entry} {g : G} {outcome : Logged (Array Report)} {reports' : Array Report},
    plan.runAll tries reports log g todo = .ok outcome → outcome.result = .ok reports' →
      ∃ g' : G, ∀ more, plan.runAll tries reports log g (todo ++ more) =
        plan.runAll tries reports' outcome.log g' more := by
  induction todo with
  | nil =>
    rintro reports log g outcome reports' ⟨⟩ ⟨⟩
    exact ⟨g, fun _ => rfl⟩
  | cons next rest ih =>
    intro reports log g outcome reports' h hok
    obtain ⟨suite, f⟩ := next
    simp only [List.cons_append, runAll] at h ⊢
    cases hsuite : plan.runSuite tries suite f g with
    | error b =>
      rw [hsuite] at h
      cases h
    | ok r =>
      obtain ⟨⟨result, entries⟩, g'⟩ := r
      rw [hsuite] at h
      cases result with
      | error failure =>
        cases h
        cases hok
      | ok report => exact ih h hok

/-- Suites that pass add a report each to those that are there. -/
theorem exists_reports_of_runAll {todo : List (Suite × Format)} {reports reports' : Array Report}
    {log : Array Entry} {g : G} {outcome : Logged (Array Report)}
    (h : plan.runAll tries reports log g todo = .ok outcome)
    (hok : outcome.result = .ok reports') : ∃ new : List Report,
      reports'.toList = reports.toList ++ new ∧ new.length = todo.length := by
  obtain ⟨_, result, hexec, -, hresult⟩ := executes_of_runAll todo reports log g outcome h
  rw [hok] at hresult
  cases result with
  | error failure => cases hresult
  | ok new => exact ⟨new, by simpa [Except.map] using hresult, hexec.length_eq rfl⟩

/-! ## Whole runs -/

theorem length_steps (plan : Plan) : plan.steps.length = 2 * plan.suites.length := by
  rw [steps]
  induction plan.suites with
  | nil => rfl
  | cons suite suites ih =>
    rw [List.flatMap_cons, List.length_append, ih]
    simp only [List.length_cons, List.length_nil]
    omega

/-- A run ends as its suites do. -/
theorem run_of_runAll {inner : Logged (Array Report)}
    (h : plan.runAll tries #[] plan.opening.toArray (ChaCha.ofSeed plan.seed) plan.steps =
      .ok inner) : ∃ outcome, plan.run tries = .ok outcome ∧ outcome.result = inner.result ∧
        ∀ failure, inner.result = .error failure → outcome.log = inner.log := by
  change ∃ outcome, (plan.runAll tries #[] plan.opening.toArray (ChaCha.ofSeed plan.seed)
    plan.steps).bind _ = .ok outcome ∧ _
  rw [h]
  cases hinner : inner.result with
  | error failure =>
    refine ⟨⟨.error failure, inner.log⟩, ?_, rfl, fun _ _ => rfl⟩
    simp only [Except.bind, hinner]
    rfl
  | ok reports =>
    refine ⟨⟨.ok reports, inner.log.push (.passed reports.size)⟩, ?_, rfl, by rintro _ ⟨⟩⟩
    simp only [Except.bind, hinner]
    rfl

theorem exists_runAll_of_run {outcome : Logged (Array Report)} (h : plan.run tries = .ok outcome) :
    ∃ inner, plan.runAll tries #[] plan.opening.toArray (ChaCha.ofSeed plan.seed) plan.steps =
      .ok inner ∧ inner.result = outcome.result := by
  cases hall : plan.runAll tries #[] plan.opening.toArray (ChaCha.ofSeed plan.seed) plan.steps with
  | error b =>
    change (plan.runAll tries #[] plan.opening.toArray (ChaCha.ofSeed plan.seed) plan.steps).bind
      _ = _ at h
    rw [hall] at h
    cases h
  | ok inner =>
    obtain ⟨outcome', h', hresult, -⟩ := run_of_runAll hall
    rw [h] at h'
    cases h'
    exact ⟨inner, rfl, hresult.symm⟩

/-- If no step exceeds the rate, the run passes and reports them. -/
theorem Chain.run_of_passing {steps : List (Step ChaCha)}
    (h : plan.Chain tries plan.steps (ChaCha.ofSeed plan.seed) steps)
    (hpasses : ∀ s ∈ steps, ¬ s.Exceeds plan) : ∃ outcome reports,
      plan.run tries = .ok outcome ∧ outcome.result = .ok reports ∧
        reports.toList = steps.map Step.report ∧
          ∀ report ∈ reports.toList, report.tally.trials = plan.trials ∧
            report.tally.exceeds plan.maxFailureRate = .ok false := by
  obtain ⟨reports, log, hall, hreports⟩ := h.runAll_of_passing hpasses #[] plan.opening.toArray
  obtain ⟨outcome, hrun, hresult, -⟩ := run_of_runAll hall
  refine ⟨outcome, reports, hrun, hresult, hreports, fun report hreport => ?_⟩
  rw [hreports] at hreport
  obtain ⟨s, hs, rfl⟩ := List.mem_map.1 hreport
  have hstep := h.forall_isRun s hs
  exact ⟨hstep.trials_eq, (hstep.passes (hpasses s hs)).1⟩

/-- Otherwise it fails with the first one that does, and its log ends there. -/
theorem Chain.run_of_exceeding {steps : List (Step ChaCha)}
    (h : plan.Chain tries plan.steps (ChaCha.ofSeed plan.seed) steps)
    (hexceeds : ∃ s ∈ steps, s.Exceeds plan) : ∃ outcome before s after failed,
      plan.run tries = .ok outcome ∧
        outcome.result = .error (.rateExceeded s.suite s.format failed plan.trials) ∧
        steps = before ++ s :: after ∧ (∀ b ∈ before, ¬ b.Exceeds plan) ∧ s.Exceeds plan ∧
        s.progress.tally.failed = .ok failed ∧
        outcome.log.toList = plan.opening ++ (before ++ [s]).flatMap Step.log := by
  obtain ⟨before, s, after, rfl, hbefore, hs⟩ := Step.exists_first hexceeds
  obtain ⟨failed, hfailed, -⟩ := (h.forall_isRun s (by simp)).fails hs
  obtain ⟨log, hlog, hall⟩ := h.runAll_of_first rfl hbefore hs hfailed #[] plan.opening.toArray
  obtain ⟨outcome, hrun, hresult, hsame⟩ := run_of_runAll hall
  exact ⟨outcome, before, s, after, failed, hrun, hresult, rfl, hbefore, hs, hfailed,
    by rw [hsame _ rfl, hlog]⟩

/-- No suite fails for a case on the boundary. -/
theorem Executes.ne_boundaryCase {todo : List (Suite × Format)} {g : G} {steps : List (Step G)}
    {result : Except Failure (List Report)} (h : plan.Executes tries todo g steps result)
    (suite : Suite) (f : Format) (number : Nat) :
    result ≠ .error (.boundaryCase suite f number) := by
  induction h with
  | done => rintro ⟨⟩
  | failed _ hs hresult =>
    rcases hs.cases with ⟨-, hok⟩ | ⟨-, _, -, hexceeds⟩
    · rw [hok] at hresult
      cases hresult
    · rw [hexceeds] at hresult
      cases hresult
      rintro ⟨⟩
  | @passed _ _ _ _ result _ _ _ ih =>
    cases result with
    | error failure => exact ih
    | ok reports => rintro ⟨⟩

theorem run_ne_boundaryCase {outcome : Logged (Array Report)} (h : plan.run tries = .ok outcome)
    (suite : Suite) (f : Format) (number : Nat) :
    outcome.result ≠ .error (.boundaryCase suite f number) := by
  intro hfailure
  obtain ⟨inner, hall, hinner⟩ := exists_runAll_of_run h
  obtain ⟨_, result, hexec, -, hresult⟩ := executes_of_runAll _ _ _ _ _ hall
  rw [hinner, hfailure] at hresult
  cases result with
  | error failure =>
    cases hresult
    exact hexec.ne_boundaryCase suite f number rfl
  | ok reports => cases hresult

/-- Suites that are added at the end do not change the reports of those before them. -/
theorem take_reports (plan plan' : Plan) {more : List Suite} (htrials : plan'.trials = plan.trials)
    (hseed : plan'.seed = plan.seed) (hrate : plan'.maxFailureRate = plan.maxFailureRate)
    (hsuites : plan'.suites = plan.suites ++ more) {outcome outcome' : Logged (Array Report)}
    {reports reports' : Array Report} (h : plan.run tries = .ok outcome)
    (hok : outcome.result = .ok reports) (h' : plan'.run tries = .ok outcome')
    (hok' : outcome'.result = .ok reports') :
    reports'.toList.take (2 * plan.suites.length) = reports.toList := by
  obtain ⟨inner, hall, hinner⟩ := exists_runAll_of_run h
  obtain ⟨inner', hall', hinner'⟩ := exists_runAll_of_run h'
  rw [hok] at hinner
  rw [hok'] at hinner'
  have hsteps : ∃ rest, plan'.steps = plan.steps ++ rest :=
    ⟨_, by rw [steps, hsuites, List.flatMap_append, steps]⟩
  have hopening : plan'.opening = plan.opening := by
    rw [opening, htrials, hseed, hrate, opening]
  obtain ⟨rest, hsteps⟩ := hsteps
  rw [runAll_congr htrials hrate, hopening, hseed, hsteps] at hall'
  obtain ⟨g, happend⟩ := exists_runAll_append hall hinner
  rw [happend] at hall'
  obtain ⟨first, hfirst, hlength⟩ := exists_reports_of_runAll hall hinner
  obtain ⟨last, hlast, -⟩ := exists_reports_of_runAll hall' hinner'
  rw [List.nil_append] at hfirst
  rw [hlast, hfirst, ← length_steps, ← hlength, List.take_left]

/-- The outcome of a run is decided by its steps, which are the suites in 32 and then in 64 bits,
one after the other from the source of the seed (`Verification::run`). If none of them exceeds the
rate, they are what is reported. Otherwise the first that does is the reason of the failure, and the
log ends with it. A case on the boundary is never the reason. Reports of suites are not changed by
suites that are added at the end. -/
theorem run_outcome (plan : Plan) (tries : Nat) :
    (∀ steps, plan.Chain tries plan.steps (ChaCha.ofSeed plan.seed) steps →
      steps.map (fun s => (s.suite, s.format)) =
        plan.suites.flatMap (fun suite => [(suite, .single), (suite, .double)]) ∧
      steps.length = 2 * plan.suites.length ∧
      ∃ outcome, plan.run tries = .ok outcome ∧
        ((∃ reports, outcome.result = .ok reports) ↔ ∀ s ∈ steps, ¬ s.Exceeds plan) ∧
        (∀ reports, outcome.result = .ok reports →
          reports.toList = steps.map Step.report ∧
          ∀ report ∈ reports.toList, report.tally.trials = plan.trials ∧
            report.tally.exceeds plan.maxFailureRate = .ok false) ∧
        ∀ failure, outcome.result = .error failure → ∃ before s after failed,
          steps = before ++ s :: after ∧ (∀ b ∈ before, ¬ b.Exceeds plan) ∧ s.Exceeds plan ∧
          s.progress.tally.failed = .ok failed ∧
          failure = .rateExceeded s.suite s.format failed plan.trials ∧
          outcome.log.toList = plan.opening ++ (before ++ [s]).flatMap Step.log) ∧
    (∀ outcome suite f number, plan.run tries = .ok outcome →
      outcome.result ≠ .error (.boundaryCase suite f number)) ∧
    ∀ (more : List Suite) outcome reports outcome' reports',
      plan.run tries = .ok outcome → outcome.result = .ok reports →
      ({ plan with suites := plan.suites ++ more }).run tries = .ok outcome' →
      outcome'.result = .ok reports' →
        reports'.toList.take (2 * plan.suites.length) = reports.toList := by
  refine ⟨fun steps hsteps => ?_, fun outcome suite f number h => run_ne_boundaryCase h suite f number,
    fun more outcome reports outcome' reports' h hok h' hok' =>
      take_reports plan { plan with suites := plan.suites ++ more } rfl rfl rfl rfl h hok h' hok'⟩
  have hlength : steps.length = 2 * plan.suites.length := by
    rw [← length_steps, ← hsteps.map_eq, List.length_map]
  refine ⟨hsteps.map_eq, hlength, ?_⟩
  by_cases hexceeds : ∃ s ∈ steps, s.Exceeds plan
  · obtain ⟨outcome, before, s, after, failed, hrun, hresult, hsplit, hbefore, hs, hfailed, hlog⟩ :=
      hsteps.run_of_exceeding hexceeds
    rw [hrun]
    refine ⟨outcome, rfl, ⟨?_, fun hpasses => ?_⟩, ?_, ?_⟩
    · rintro ⟨reports, hreports⟩
      cases hresult.symm.trans hreports
    · obtain ⟨b, hb, hexceeds⟩ := hexceeds
      exact absurd hexceeds (hpasses b hb)
    · intro reports hreports
      cases hresult.symm.trans hreports
    · intro failure hfailure
      cases hresult.symm.trans hfailure
      exact ⟨before, s, after, failed, hsplit, hbefore, hs, hfailed, rfl, hlog⟩
  · have hpasses : ∀ s ∈ steps, ¬ s.Exceeds plan := fun s hs h => hexceeds ⟨s, hs, h⟩
    obtain ⟨outcome, reports, hrun, hresult, hreports⟩ := hsteps.run_of_passing hpasses
    rw [hrun]
    refine ⟨outcome, rfl, ⟨fun _ => hpasses, fun _ => ⟨reports, hresult⟩⟩, ?_, ?_⟩
    · intro reports' hreports'
      cases hresult.symm.trans hreports'
      exact hreports
    · intro failure hfailure
      cases hresult.symm.trans hfailure

/-- Boxes can be run from any source, and no mismatch is counted. -/
theorem exists_isRun_boxLine (plan : Plan) (tries : Nat) (f : Format) (g : G) :
    ∃ (g' : G) (v : Logged Report),
      Step.IsRun plan tries ⟨.boxLine, f, g, .start plan.trials, g', v⟩ := by
  obtain ⟨g', hrun⟩ := Suite.trials_run_of_silent (Suite.boxLine_trial_run (f := f) tries)
    plan.trials.toNat 0 (.start plan.trials) g
  rcases judge_cases plan.maxFailureRate .boxLine f (Progress.start plan.trials :
    Progress (Binary f)).tally with ⟨_, v, -, -, hjudge, -⟩ | ⟨-, hmany⟩
  · exact ⟨g', v, hrun, hjudge⟩
  · exact absurd hmany (Nat.not_le_of_lt (Nat.zero_lt_succ _))

/-- One trial of boxes passes in both precisions if no mismatch is tolerated. With a rate below zero
a run of two suites fails at the first step. -/
theorem run_outcome_boxLine :
    (∃ outcome reports, run ⟨1, 1, 0, [.boxLine]⟩ 1 = .ok outcome ∧
      outcome.result = .ok reports ∧
      reports.toList = [⟨.boxLine, .single, ⟨1, 0, 0, 0⟩⟩, ⟨.boxLine, .double, ⟨1, 0, 0, 0⟩⟩]) ∧
    ∃ outcome, run ⟨1, 1, -1, [.boxLine, .boxLine]⟩ 1 = .ok outcome ∧
      outcome.result = .error (.rateExceeded .boxLine .single 0 1) := by
  constructor
  · obtain ⟨g1, v1, h1⟩ := exists_isRun_boxLine ⟨1, 1, 0, [.boxLine]⟩ 1 .single (ChaCha.ofSeed 1)
    obtain ⟨g2, v2, h2⟩ := exists_isRun_boxLine ⟨1, 1, 0, [.boxLine]⟩ 1 .double g1
    obtain ⟨-, -, outcome, hrun, hpasses, hok, -⟩ :=
      (run_outcome ⟨1, 1, 0, [.boxLine]⟩ 1).1 _ (.cons h1 (.cons h2 (.nil g2)))
    have hnone : ({ trials := 1 } : Tally).exceeds 0 = .ok false :=
      Tally.exceeds_of_no_mismatch (by decide) 1
    obtain ⟨reports, hreports⟩ := hpasses.2 (by
      intro s hs hexceeds
      simp only [List.mem_cons, List.not_mem_nil, or_false] at hs
      rcases hs with rfl | rfl <;> cases hnone.symm.trans hexceeds)
    exact ⟨outcome, reports, hrun, hreports, (hok reports hreports).1⟩
  · obtain ⟨g1, v1, h1⟩ :=
      exists_isRun_boxLine ⟨1, 1, -1, [.boxLine, .boxLine]⟩ 1 .single (ChaCha.ofSeed 1)
    obtain ⟨g2, v2, h2⟩ := exists_isRun_boxLine ⟨1, 1, -1, [.boxLine, .boxLine]⟩ 1 .double g1
    obtain ⟨g3, v3, h3⟩ := exists_isRun_boxLine ⟨1, 1, -1, [.boxLine, .boxLine]⟩ 1 .single g2
    obtain ⟨g4, v4, h4⟩ := exists_isRun_boxLine ⟨1, 1, -1, [.boxLine, .boxLine]⟩ 1 .double g3
    obtain ⟨-, -, outcome, hrun, hpasses, -, hfail⟩ :=
      (run_outcome ⟨1, 1, -1, [.boxLine, .boxLine]⟩ 1).1 _
        (.cons h1 (.cons h2 (.cons h3 (.cons h4 (.nil g4)))))
    have hexceeds : ({ trials := 1 } : Tally).exceeds (-1) = .ok true := by decide +kernel
    cases hresult : outcome.result with
    | ok reports => exact absurd hexceeds (hpasses.1 ⟨reports, hresult⟩ _ (List.mem_cons_self ..))
    | error failure =>
      obtain ⟨before, s, after, failed, hsplit, hbefore, -, hfailed, rfl, -⟩ := hfail _ hresult
      cases before with
      | nil =>
        cases hsplit
        cases hfailed
        exact ⟨outcome, hrun, hresult⟩
      | cons b before =>
        obtain ⟨rfl, -⟩ := List.cons_eq_cons.1 hsplit
        exact absurd hexceeds (hbefore _ (List.mem_cons_self ..))

end Plan

end HitTest
