import HitTest.Trial.Comparison

/-!
# Lines at a known distance from the center of a sphere (`Probe`)

A base point is drawn at a distance from zero to four from the center of a sphere of a radius from
zero to two. Broadside lines cross the base point at a right angle to the way there from the
center; endpoint lines start at the base point and lead on. No point of either is nearer to the
center, so a hit is expected if the distance is at most the radius.
-/

namespace HitTest

/-- A sphere, and a base point at a distance and in a direction from its center (`Probe`). -/
structure SphereLine (S : Type) where
  sphere : Sphere S
  direction : Vec3 S
  distance : S

namespace SphereLine

variable {G S : Type} [Scalar S]

/-- Draws the center, the radius, the direction and the distance (`Probe::random`). -/
def draw [ScalarSource G S] (tries : Nat) : Draw G S (SphereLine S) := do
  let center ← Draw.vector
  let radius := Scalar.two * (← Draw.scalar)
  match Sphere.ofRadius center radius with
  | .error e => throw (.badRadius e)
  | .ok sphere =>
    let direction ← Draw.direction tries
    let distance := Scalar.four * (← Draw.scalar)
    return ⟨sphere, direction, distance⟩

/-- The base point (`Probe::base`). -/
def base (c : SphereLine S) : Vec3 S := c.sphere.center + c.direction * c.distance

/-- Compares the segment between two points and the ray from the first through the second
(`check_lines` with `Probe::expect_hit`). -/
def trial (c : SphereLine S) (start finish : Vec3 S) : Trial S :=
  let compare := Comparison.ofSphere c.distance c.sphere (decide (c.distance ≤ c.sphere.radius))
  { segment := compare (.segment ⟨start, finish⟩)
    ray := compare (.ray ⟨start, finish - start⟩) }

/-- Draws lines that reach up to four units to both sides of the base point, at a right angle to the
direction from the center (`broadside_trials`). -/
def broadside [ScalarSource G S] (tries : Nat) : Draw G S (Trial S) := do
  let c ← draw tries
  let side := c.direction.perpendicular
  let start := c.base + side * (Scalar.four * (← Draw.scalar) : S)
  let finish := c.base - side * (Scalar.four * (← Draw.scalar) : S)
  return c.trial start finish

/-- Draws lines that lead from the base point up to two units away from the center
(`endpoint_trials`). -/
def endpoint [ScalarSource G S] (tries : Nat) : Draw G S (Trial S) := do
  let c ← draw tries
  return c.trial c.base (c.base + c.direction * (Scalar.two * (← Draw.scalar) : S))

end SphereLine

end HitTest
