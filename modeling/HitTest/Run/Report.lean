import HitTest.Binary.Text
import HitTest.Trial.Suite

/-!
# Reports, failures and the log (`Report`, `Error`)

What comes out of a run: a report for each suite and precision that went well, or the reason why the
run was given up, and in either case a log of all that happened, from single remarks to the verdict.
The time that a suite took, which ends the message of its counts, is not part of the log.
-/

namespace HitTest

/-- The name of a precision (`type_name`). -/
def Format.name : Format → String
  | single => "f32"
  | double => "f64"

/-- The tally of a suite that stayed within the tolerated rate (`Report`). -/
structure Report where
  suite : Suite
  format : Format
  tally : Tally
  deriving DecidableEq, Repr

/-- Why a run was given up (`Error`). -/
inductive Failure where
  | rateExceeded (suite : Suite) (format : Format) (failed trials : UInt32)
  | boundaryCase (suite : Suite) (format : Format) (number : Nat)
  deriving DecidableEq, Repr

/-- The wording of a failure (its `Display`). -/
def Failure.message : Failure → String
  | rateExceeded suite format failed trials =>
    s!"{suite.label} ({format.name}): {failed} out of {trials} trials went wrong"
  | boundaryCase suite format number =>
    s!"{suite.label} ({format.name}): hand-crafted case #{number} failed"

/-- How much a log entry matters. -/
inductive Level where
  | trace
  | debug
  | info
  | warn
  | error
  deriving DecidableEq, Repr

/-- The name of a level. -/
def Level.name : Level → String
  | trace => "TRACE"
  | debug => "DEBUG"
  | info => "INFO"
  | warn => "WARN"
  | error => "ERROR"

/-- Whether a level is shown to a user who does not ask for details (`LevelFilter::Info`). -/
def Level.isShown : Level → Bool
  | trace => false
  | debug => false
  | info => true
  | warn => true
  | error => true

/-- An entry of the log (the `info!`, `warn!`, `error!`, `debug!` and `trace!` messages). -/
inductive Entry where
  | started (trials : UInt32) (seed : UInt64)
  | tolerance (rate : Binary64)
  | trial (format : Format) (e : TrialEvent (Binary format))
  | counted (suite : Suite) (format : Format) (failed trials : UInt32)
  | rateExceeded (suite : Suite) (format : Format) (tally : Tally)
  | tolerated (suite : Suite) (format : Format) (tally : Tally)
  | caseFailed (suite : Suite) (format : Format) (number : Nat)
  | passed (reports : Nat)

namespace Entry

/-- The level of an entry. -/
def level : Entry → Level
  | started .. => .info
  | tolerance _ => .info
  | trial _ (.note _) => .trace
  | trial _ (.mismatch ..) => .debug
  | counted .. => .info
  | rateExceeded .. => .error
  | tolerated .. => .warn
  | caseFailed .. => .error
  | passed _ => .info

/-- The wording of an entry. -/
def message : Entry → String
  | started trials seed =>
    s!"Testing geometry intersection routines with {trials} trials per suite, seed {seed}..."
  | tolerance rate =>
    let percent := (Binary.ofNat 100 * rate).text .percentage
    s!"Some trials can fail due to roundoff, up to {percent}% are tolerated"
  | trial _ (.note n) => n.message
  | trial _ (.mismatch number m subject) => mismatchMessage number m subject
  | counted suite format failed trials =>
    s!"{suite.label} ({format.name}): {failed} of {trials} trials went wrong"
  | rateExceeded suite format tally =>
    s!"{suite.label} ({format.name}): failure rate exceeded, {tally}"
  | tolerated suite format tally => s!"{suite.label} ({format.name}): tolerating {tally}"
  | caseFailed suite format number => (Failure.boundaryCase suite format number).message
  | passed reports => s!"Successfully passed all {reports} suites"

/-- An entry as a line of the log, which may have several lines of text. -/
def line (e : Entry) : String := s!"{e.level.name} {e.message}"

end Entry

/-- A result, and the log of how it came about. -/
structure Logged (α : Type) where
  result : Except Failure α
  log : Array Entry

/-- A failure that is not an outcome: a draw of some precision could not be used. -/
structure Breakdown where
  format : Format
  fault : Fault (Binary format)

/-- The wording of a breakdown. -/
def Breakdown.message (b : Breakdown) : String := b.fault.message

end HitTest
