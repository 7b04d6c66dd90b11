import HitTest.Trial.BoxLine
import HitTest.Trial.SphereLine
import HitTest.Trial.TriangleLine

/-!
# Suites of trials

A suite is a kind of trial, run a number of times. A run counts the mismatches and keeps, in order,
what was remarked and what was wrong. Trials are numbered from zero.
-/

namespace HitTest

/-- The kinds of trials (`Suite`). -/
inductive Suite where
  | triangleLine
  | sphereBroadside
  | sphereEndpoint
  | boxLine
  deriving DecidableEq, Repr

/-- What happens during the trials of a suite. -/
inductive TrialEvent (S : Type) where
  | note (n : Note S)
  | mismatch (trial : Nat) (m : Mismatch) (subject : Subject S)

/-- The wording of a mismatch, with the configuration that shows it (the `debug!` messages). -/
def mismatchMessage {S : Type} [ToString S] (trial : Nat) (m : Mismatch) (subject : Subject S) :
    String :=
  s!"Failed {subject.kind} intersection test #{trial}: {m.label}!\n{subject.description}"

/-- The tally and the events so far. -/
structure Progress (S : Type) where
  tally : Tally
  events : Array (TrialEvent S)

namespace Progress

/-- Nothing counted yet (`Tally::new`). -/
def start {S : Type} (trials : UInt32) : Progress S := ⟨{ trials }, #[]⟩

/-- Counts and keeps what a comparison showed. -/
def add {S : Type} (p : Progress S) (trial : Nat) (c : Comparison S) :
    Except (Fault S) (Progress S) :=
  let events := c.notes.foldl (fun events n => events.push (.note n)) p.events
  match c.mismatch with
  | none => .ok { p with events }
  | some m =>
    match p.tally.record m with
    | .error e => .error (.overflow e)
    | .ok tally => .ok ⟨tally, events.push (.mismatch trial m c.subject)⟩

end Progress

namespace Suite

/-- All suites, in the order in which they are run (`Suite::all`). -/
def all : List Suite := [triangleLine, sphereBroadside, sphereEndpoint, boxLine]

/-- The wording of a suite (its `Display`). -/
def label : Suite → String
  | triangleLine => "triangle line intersection"
  | sphereBroadside => "sphere broadside line intersection"
  | sphereEndpoint => "sphere endpoint line intersection"
  | boxLine => "box line intersection"

variable {G S : Type} [Scalar S] [ScalarSource G S]

/-- Draws one trial and makes its comparisons (one turn of the loops below). -/
def trial (tries : Nat) : Suite → Draw G S (Trial S)
  | triangleLine => return (← TriangleLine.draw).trial
  | sphereBroadside => SphereLine.broadside tries
  | sphereEndpoint => SphereLine.endpoint tries
  | boxLine => return (← BoxLine.draw).trial

/-- Runs `count` trials, the first of which has the number `first` (the loops of `random_trials`,
`broadside_trials` and `endpoint_trials`). -/
def trials (suite : Suite) (tries : Nat) :
    (count first : Nat) → Progress S → Draw G S (Progress S)
  | 0, _, p => return p
  | count + 1, first, p => do
    let t ← suite.trial tries
    let p ← p.add first t.segment
    let p ← p.add first t.ray
    trials suite tries count (first + 1) p

end Suite

end HitTest
