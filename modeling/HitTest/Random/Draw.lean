import HitTest.Random.Counter
import HitTest.Shape.Sphere
import HitTest.Trial.Tally

/-!
# Drawing configurations (`random_scalar`, `random_vec`, `random_direction`)

A draw takes scalars from a source, in order, and makes something of them. It fails if what is
drawn cannot be used: a radius below zero, a box without points, a counter at its limit, or, after a
given number of tries, no vector long enough to be a direction. The search for a direction has no
limit of its own; the number of tries stands for how long it is watched.
-/

namespace HitTest

/-- Why a draw, or what is done with it, fails (the panics of the trials). -/
inductive Fault (S : Type) where
  | badRadius (e : Sphere.BadRadius S)
  | emptyBox
  | overflow (e : Overflow)
  | noDirection

/-- The wording of a failure. -/
def Fault.message {S : Type} [ToString S] : Fault S → String
  | badRadius e => e.message
  | emptyBox => "Box expanded by points cannot be empty"
  | overflow e => e.message
  | noDirection => "No vector was long enough to be a direction"

/-- A computation that draws from a source `G` of scalars `S`. -/
abbrev Draw (G S : Type) := StateT G (Except (Fault S))

namespace Draw

variable {G S : Type} [ScalarSource G S]

/-- The next scalar (`random_scalar`). -/
def scalar : Draw G S S := fun g => .ok (ScalarSource.next g)

/-- A vector of the next three scalars (`random_vec`). -/
def vector : Draw G S (Vec3 S) := do
  let x ← scalar
  let y ← scalar
  let z ← scalar
  return ⟨x, y, z⟩

/-- The direction of the first of the next vectors that is long enough to have one, if one of the
given number of tries is (`random_direction`). -/
def direction [Scalar S] : (tries : Nat) → Draw G S (Vec3 S)
  | 0 => throw .noDirection
  | tries + 1 => do
    let v ← vector
    if Scalar.epsilon < v.normSq then return v.normalize else direction tries

/-- The number of tries after which a counter of 64 bits has come back to its start. -/
def period : Nat := UInt64.size

end Draw

end HitTest
