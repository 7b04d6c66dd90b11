import HitTest.Vec3

/-!
# Mismatches and their tally (`Mismatch`, `Tally`)

A query is compared with an outcome that is known beforehand. The ways in which it can be wrong are
counted, in 32 bits. A sum of counts that does not fit is refused; it never wraps.
-/

namespace HitTest

/-! ## Counts -/

/-- The result of a sum that does not fit its counter (the panic of `+` and `+=`). -/
inductive Overflow where
  | overflow
  deriving DecidableEq, Repr

/-- The wording of an overflow. -/
def Overflow.message : Overflow → String
  | overflow => "attempt to add with overflow"

/-- The sum of two counts, if it fits (`+` and `+=`). -/
def addCounts (a b : UInt32) : Except Overflow UInt32 :=
  if a.toNat + b.toNat < UInt32.size then .ok (a + b) else .error .overflow

/-! ## Mismatches -/

/-- How a query can be wrong (`Mismatch`). -/
inductive Mismatch where
  | falsePositive
  | falseNegative
  /-- It hit as expected, but at another point. -/
  | notEquivalent
  deriving DecidableEq, Repr

namespace Mismatch

/-- All ways to be wrong. -/
def all : List Mismatch := [falsePositive, falseNegative, notEquivalent]

/-- The wording of a mismatch (its `Display`). -/
def label : Mismatch → String
  | falsePositive => "false positive"
  | falseNegative => "false negative"
  | notEquivalent => "not equivalent"

/-- What is wrong with an answer, given the expected one (the cases of `Tally::check`). -/
def ofAnswer (expected actual : Bool) : Option Mismatch :=
  match expected, actual with
  | false, true => some falsePositive
  | true, false => some falseNegative
  | _, _ => none

/-- What is wrong with a point that was hit, or not, given whether a hit was expected and where
(`check_point`). -/
def ofPoint {S : Type} [Scalar S] (expected : Bool) (point : Vec3 S) (actual : Option (Vec3 S)) :
    Option Mismatch :=
  match expected, actual with
  | true, some p => if p.equivalent point then none else some notEquivalent
  | _, _ => ofAnswer expected actual.isSome

end Mismatch

/-! ## Tallies -/

/-- The counts of mismatches in a number of trials (`Tally`). A trial may contribute several. -/
structure Tally where
  trials : UInt32
  falsePositives : UInt32 := 0
  falseNegatives : UInt32 := 0
  notEquivalent : UInt32 := 0
  deriving DecidableEq, Repr

namespace Tally

/-- The number of all mismatches (`Tally::failed`). -/
def failed (t : Tally) : Except Overflow UInt32 := do
  addCounts (← addCounts t.falsePositives t.falseNegatives) t.notEquivalent

/-- Whether there are more mismatches than a share of the trials (`Tally::exceeds`). -/
def exceeds (t : Tally) (rate : Binary64) : Except Overflow Bool := do
  let failed ← t.failed
  return decide (Binary.ofNat t.trials.toNat * rate < (Binary.ofNat failed.toNat : Binary64))

/-- The tally with one more mismatch (`Tally::record`). -/
def record (t : Tally) : Mismatch → Except Overflow Tally
  | .falsePositive => return { t with falsePositives := ← addCounts t.falsePositives 1 }
  | .falseNegative => return { t with falseNegatives := ← addCounts t.falseNegatives 1 }
  | .notEquivalent => return { t with notEquivalent := ← addCounts t.notEquivalent 1 }

/-- Compares an answer with the expected one, and records what is wrong with it (`Tally::check`). -/
def check (t : Tally) (expected actual : Bool) : Except Overflow (Option Mismatch × Tally) :=
  match Mismatch.ofAnswer expected actual with
  | none => .ok (none, t)
  | some m => return (some m, ← t.record m)

end Tally

/-- All counts, by name (its `Debug`). -/
def Tally.text (t : Tally) : String :=
  let mismatches := s!"false_positives: {t.falsePositives}, false_negatives: {t.falseNegatives}"
  s!"Tally \x7b trials: {t.trials}, {mismatches}, not_equivalent: {t.notEquivalent} \x7d"

instance : ToString Tally := ⟨Tally.text⟩

end HitTest
