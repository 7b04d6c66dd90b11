import HitTest.Trial.Comparison

/-!
# Lines through a point in the plane of a triangle (`tri::random_trials`)

The point is drawn by its coordinates along the edges, from minus two to two, and a line by its
direction and the parameter, from minus two to two, at which it is at that point. The segment has
the length of the direction and starts where the ray starts. A hit is expected if the point is on
the triangle and the parameter is on the line, and it is expected at that point.
-/

namespace HitTest

/-- A triangle, coordinates along its edges, a direction and a parameter. -/
structure TriangleLine (S : Type) where
  triangle : Triangle S
  u : S
  v : S
  t : S
  direction : Vec3 S

namespace TriangleLine

variable {G S : Type} [Scalar S]

/-- A scalar from minus two to two. -/
def coordinate [ScalarSource G S] : Draw G S S :=
  return Scalar.four * (← Draw.scalar) - Scalar.two

/-- Draws the vertices, the two coordinates, the parameter and the direction
(`tri::random_trials`). -/
def draw [ScalarSource G S] : Draw G S (TriangleLine S) := do
  let v0 ← Draw.vector
  let v1 ← Draw.vector
  let v2 ← Draw.vector
  let u ← coordinate
  let v ← coordinate
  let t ← coordinate
  let direction ← Draw.vector
  return ⟨⟨v0, v1, v2⟩, u, v, t, direction⟩

/-- The point with the drawn coordinates (`isect_point`). -/
def point (c : TriangleLine S) : Vec3 S := c.triangle.pointAt c.u c.v

/-- Whether the point is on the triangle (`on_triangle`). -/
def onTriangle (c : TriangleLine S) : Bool :=
  decide (0 ≤ c.u) && decide (0 ≤ c.v) && decide (c.u + c.v ≤ 1)

/-- Where the lines start. -/
def origin (c : TriangleLine S) : Vec3 S := c.point - c.direction * c.t

/-- The segment along the direction. -/
def segment (c : TriangleLine S) : Segment S := ⟨c.origin, c.point + c.direction * (1 - c.t)⟩

/-- The ray along the direction. -/
def ray (c : TriangleLine S) : Ray S := ⟨c.origin, c.direction⟩

/-- Compares both lines (`check_point`). -/
def trial (c : TriangleLine S) : Trial S :=
  let compare := fun expected probe =>
    Comparison.ofTriangle c.u c.v c.t c.triangle expected c.point probe
  { segment := compare (c.onTriangle && decide (0 ≤ c.t) && decide (c.t ≤ 1)) (.segment c.segment)
    ray := compare (c.onTriangle && decide (0 ≤ c.t)) (.ray c.ray) }

end TriangleLine

end HitTest
