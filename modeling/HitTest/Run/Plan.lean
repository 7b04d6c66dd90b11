import HitTest.Random.ChaCha
import HitTest.Run.Report
import HitTest.Trial.Boundary

/-!
# Planned runs (`Verification`)

A plan says which suites to run, how often, from which seed, and which share of the trials may go
wrong. A run takes each suite in 32 and then in 64 bits, with one source of words for all of them,
and is given up at the first failure.
-/

namespace HitTest

/-- What to run (`Verification`). -/
structure Plan where
  trials : UInt32
  seed : UInt64
  maxFailureRate : Binary64
  suites : List Suite

namespace Plan

variable {G : Type} [WordSource G]

/-- The verdict on a counted suite: the entries of the log that state it, and a report or a failure
(`run_suite` after the trials). The suite of triangles has to pass the cases on the boundary as
well. -/
def judge (rate : Binary64) (suite : Suite) (f : Format) (tally : Tally) :
    Except Overflow (Logged Report) := do
  let failed ← tally.failed
  let counted := #[Entry.counted suite f failed tally.trials]
  if ← tally.exceeds rate then
    return ⟨.error (.rateExceeded suite f failed tally.trials),
      counted.push (.rateExceeded suite f tally)⟩
  let log := if 0 < failed then counted.push (.tolerated suite f tally) else counted
  if suite = .triangleLine then
    let log := log ++ (Boundary.notes (Binary f)).map fun n => Entry.trial f (.note n)
    match Boundary.firstFailure? (Binary f) with
    | some number =>
      return ⟨.error (.boundaryCase suite f number), log.push (.caseFailed suite f number)⟩
    | none => return ⟨.ok ⟨suite, f, tally⟩, log⟩
  else return ⟨.ok ⟨suite, f, tally⟩, log⟩

/-- Runs one suite in one precision (`Verification::run_suite`). -/
def runSuite (plan : Plan) (tries : Nat) (suite : Suite) (f : Format) (g : G) :
    Except Breakdown (Logged Report × G) :=
  let start : Progress (Binary f) := .start plan.trials
  match (suite.trials tries plan.trials.toNat 0 start).run g with
  | .error fault => .error ⟨f, fault⟩
  | .ok (progress, g) =>
    match judge plan.maxFailureRate suite f progress.tally with
    | .error e => .error ⟨f, .overflow e⟩
    | .ok verdict =>
      .ok (⟨verdict.result, progress.events.map (.trial f) ++ verdict.log⟩, g)

/-- Runs suites one after the other, until one fails (the loop of `Verification::run`). Reports and
log are added to those that are there already. -/
def runAll (plan : Plan) (tries : Nat) (reports : Array Report) (log : Array Entry) (g : G) :
    List (Suite × Format) → Except Breakdown (Logged (Array Report))
  | [] => .ok ⟨.ok reports, log⟩
  | (suite, f) :: rest =>
    match plan.runSuite tries suite f g with
    | .error b => .error b
    | .ok (⟨.error failure, entries⟩, _) => .ok ⟨.error failure, log ++ entries⟩
    | .ok (⟨.ok report, entries⟩, g) =>
      runAll plan tries (reports.push report) (log ++ entries) g rest

/-- The suites of a plan, each in both precisions. -/
def steps (plan : Plan) : List (Suite × Format) :=
  plan.suites.flatMap fun suite => [(suite, .single), (suite, .double)]

/-- Runs the plan, with the words of the stream of its seed (`Verification::run`). -/
def run (plan : Plan) (tries : Nat) : Except Breakdown (Logged (Array Report)) := do
  let opening := #[Entry.started plan.trials plan.seed, Entry.tolerance plan.maxFailureRate]
  let outcome ← plan.runAll tries #[] opening (ChaCha.ofSeed plan.seed) plan.steps
  match outcome.result with
  | .error failure => return ⟨.error failure, outcome.log⟩
  | .ok reports => return ⟨.ok reports, outcome.log.push (.passed reports.size)⟩

end Plan

end HitTest
