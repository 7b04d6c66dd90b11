import HitTest.Run.Plan

/-!
# Settings (`VerificationBuilder`)

A plan is put together from settings. What is not set has a default: a hundred thousand trials, a
fixed seed so that runs can be repeated, one percent of mismatches, and all suites.
-/

namespace HitTest

/-- One setting of a plan (the setters of `VerificationBuilder`). -/
inductive Setting where
  | trials (n : UInt32)
  | seed (n : UInt64)
  | maxFailureRate (rate : Binary64)
  | suite (s : Suite)

/-- A rate below zero, or that is not a number (the assertion of `max_failure_rate`). -/
inductive BadRate where
  | badRate
  deriving DecidableEq, Repr

/-- The wording of a bad rate. -/
def BadRate.message : BadRate → String
  | badRate => "Failure rate cannot be negative"

namespace Settings

/-- The seed of runs that are not given one (`DEFAULT_SEED`). -/
def defaultSeed : UInt64 := 0x5eed6e0d

end Settings

/-- The settings of a plan so far, and the suites asked for so far (`VerificationBuilder`). -/
structure Settings where
  trials : UInt32 := 100000
  seed : UInt64 := Settings.defaultSeed
  maxFailureRate : Binary64 := Binary.ofNat 1 / Binary.ofNat 100
  suites : List Suite := []

namespace Settings

/-- The settings with one more made (`trials`, `seed`, `max_failure_rate` and `suite`). A suite that
was asked for already is not added again. -/
def set (s : Settings) : Setting → Except BadRate Settings
  | .trials trials => .ok { s with trials }
  | .seed seed => .ok { s with seed }
  | .maxFailureRate rate =>
    if 0 ≤ rate then .ok { s with maxFailureRate := rate } else .error .badRate
  | .suite suite =>
    .ok (if suite ∈ s.suites then s else { s with suites := s.suites ++ [suite] })

/-- The settings with several more made, in order. -/
def setAll (s : Settings) (settings : List Setting) : Except BadRate Settings :=
  settings.foldlM set s

/-- The plan of the settings, with all suites if none was asked for
(`VerificationBuilder::build`). -/
def plan (s : Settings) : Plan :=
  ⟨s.trials, s.seed, s.maxFailureRate, if s.suites.isEmpty then Suite.all else s.suites⟩

end Settings

end HitTest
