import HitTest.Shape.Box
import HitTest.Shape.Line
import HitTest.Shape.Sphere
import HitTest.Shape.Triangle

/-!
# Shapes of any kind

The box around each shape that has a bounded extent, and the sum of all shapes, with what is defined
for several of them: the line that some are part of, and the bounding box of those that are bounded.
Boxes of several shapes are combined by `Box.union`.
-/

namespace HitTest

/-! ## Bounding boxes -/

section Bounds

variable {S : Type} [Scalar S]

/-- The box around the vertices (`Spatial` for `Triangle`). -/
def Triangle.bounds (t : Triangle S) : Box S := .ofPoints [t.v0, t.v1, t.v2]

/-- The box around the ends (`Spatial` for `LineSegment`). -/
def Segment.bounds (s : Segment S) : Box S := .ofPoints [s.start, s.finish]

/-- The box that reaches one radius from the center along every axis; an empty sphere has the empty
box (`Spatial` for `Sphere`). -/
def Sphere.bounds (s : Sphere S) : Box S :=
  if s.isEmpty then .empty else ⟨s.center - .uniform s.radius, s.center + .uniform s.radius⟩

end Bounds

/-! ## The sum of all shapes -/

/-- A shape of any kind. -/
inductive Shape (S : Type) where
  | point (position : Vec3 S)
  | triangle (t : Triangle S)
  | sphere (s : Sphere S)
  | box (b : Box S)
  | ray (r : Ray S)
  | segment (s : Segment S)
  | plane (p : Plane S)
  deriving DecidableEq, BEq

variable {S : Type} [Scalar S]

namespace Shape

/-- The line that a ray or segment is part of (`Line`). -/
def line? : Shape S → Option (Line S)
  | ray r => some r.line
  | segment s => some s.line
  | _ => none

/-- The box around a shape of bounded extent (`Spatial::bounds`). -/
def bounds? : Shape S → Option (Box S)
  | point p => some (.point p)
  | triangle t => some t.bounds
  | sphere s => some s.bounds
  | box b => some b
  | segment s => some s.bounds
  | ray _ => none
  | plane _ => none

end Shape

instance {S : Type} [ToString S] : ToString (Shape S) where
  toString
    | .point p => toString p
    | .triangle t => toString t
    | .sphere s => toString s
    | .box b => toString b
    | .ray r => toString r
    | .segment s => toString s
    | .plane p => toString p

end HitTest
