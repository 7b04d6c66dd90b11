import HitTest.Shape.Line
import HitTest.Shape.Triangle

/-!
# Where a line crosses a surface (`IntersectionPoint`)

A line crosses a plane or a triangle in at most one point. The answer to a query says how it was
found: the parameter of the line, and for a triangle also the coordinates along its edges. A line
that is parallel to the surface, or lies in it, crosses nothing.
-/

namespace HitTest

variable {S : Type} [Scalar S]

namespace Plane

/-- The parameter at which a line crosses a plane (`param` in `intersect_line_with_plane`). -/
def crossing? (pl : Plane S) (l : Line S) : Option S :=
  let slope := pl.normal.dot l.direction
  if Scalar.abs slope ≤ Scalar.minPositive then none
  else
    let s := -pl.distanceTo l.origin / slope
    if l.containsParam s then some s else none

/-- The point in which a line crosses a plane (`intersect_line_with_plane`). -/
def hit? (pl : Plane S) (l : Line S) : Option (Vec3 S) := (pl.crossing? l).map l.pointAt

end Plane

namespace Triangle

/-- How a line meets a triangle (the ways out of `intersect_line_with_tri`). -/
inductive Crossing (S : Type) where
  /-- The line has no single point in the plane of the triangle. -/
  | parallel
  /-- The line passes the plane outside of the triangle, or is not present there. -/
  | miss
  /-- The line is at the parameter `s` where the coordinates along the edges are `u` and `v`. -/
  | hit (u v s : S)
  deriving DecidableEq

/-- Solves `origin + s * direction = v0 + u * edge0 + v * edge1`, and accepts the solution if it is
on the triangle and on the part of the line that is present (`intersect_line_with_tri`). -/
def crossing (t : Triangle S) (l : Line S) : Crossing S :=
  let det := t.determinant l.direction
  if Scalar.abs det ≤ Scalar.minPositive then .parallel
  else
    let inverse := 1 / det
    let d := l.origin - t.v0
    let u := inverse * d.dot (l.direction.cross t.edge1)
    if u < 0 ∨ 1 < u then .miss
    else
      let q := d.cross t.edge0
      let v := inverse * l.direction.dot q
      if v < 0 ∨ 1 < u + v then .miss
      else
        let s := inverse * t.edge1.dot q
        if l.containsParam s then .hit u v s else .miss

/-- The point of a crossing (the answer of `intersect_line_with_tri`). It is found from the
coordinates along the edges, not from the parameter of the line, so that it is in the plane of the
triangle up to roundoff. -/
def Crossing.point? (t : Triangle S) : Crossing S → Option (Vec3 S)
  | hit u v _ => some (t.pointAt u v)
  | parallel => none
  | miss => none

/-- A crossing is remarked upon if the line is parallel to the triangle (the `trace!` of
`intersect_line_with_tri`). -/
def Crossing.notes (l : Line S) : Crossing S → List (Note S)
  | parallel => [.parallelLine l.direction]
  | miss => []
  | hit .. => []

/-- The point in which a line crosses a triangle (`intersect_line_with_tri`). -/
def hit? (t : Triangle S) (l : Line S) : Option (Vec3 S) := (t.crossing l).point? t

end Triangle

end HitTest
