import HitTest.Vec3

/-!
# Rays, segments and the lines they are part of (`Line`)

A ray goes from its origin along its direction without end; a segment goes from its start to its
end. Queries treat both as a line `origin + s * direction` of which the part with
`0 ≤ s ≤ maxParam` is present. For some lines a query has no proper answer. Then it answers that
nothing is hit, and remarks upon the line.
-/

namespace HitTest

/-- The half-line `origin + s * direction` for `0 ≤ s` (`Ray`). The direction need not have length
one. -/
structure Ray (S : Type) where
  origin : Vec3 S
  direction : Vec3 S
  deriving DecidableEq, BEq

/-- The points `start + t * (finish - start)` for `0 ≤ t ≤ 1` (`LineSegment`). -/
structure Segment (S : Type) where
  start : Vec3 S
  finish : Vec3 S
  deriving DecidableEq, BEq

/-- The points `origin + s * direction` for `0 ≤ s ≤ maxParam` (`Line`). -/
structure Line (S : Type) where
  origin : Vec3 S
  direction : Vec3 S
  maxParam : S
  deriving DecidableEq

variable {S : Type}

namespace Line

variable [Scalar S]

/-- Whether a parameter is in the part that is present (`Line::contains_param`). -/
def containsParam (l : Line S) (s : S) : Bool := decide (0 ≤ s) && decide (s ≤ l.maxParam)

/-- The point at a parameter. -/
def pointAt (l : Line S) (s : S) : Vec3 S := l.origin + l.direction * s

end Line

namespace Ray

/-- The point at a parameter (`Ray::point_at`). -/
def pointAt [Add S] [Mul S] (r : Ray S) (s : S) : Vec3 S := r.origin + r.direction * s

variable [Scalar S]

/-- A ray as a line without end (`Line` for `Ray`). -/
def line (r : Ray S) : Line S := ⟨r.origin, r.direction, Scalar.infinity⟩

/-- The point of the ray nearest to a given one: where the given point projects to, or the origin if
that is behind it (`Ray::nearest_point_to`). A ray without direction is its origin. -/
def nearestTo (r : Ray S) (p : Vec3 S) : Vec3 S :=
  let lengthSq := r.direction.normSq
  if lengthSq ≤ 0 then r.origin
  else r.pointAt (max (r.direction.dot (p - r.origin) / lengthSq) 0)

end Ray

namespace Segment

/-- From start to end (`LineSegment::direction`). -/
def direction [Sub S] (s : Segment S) : Vec3 S := s.finish - s.start

/-- The point at a parameter (`LineSegment::point_at`). -/
def pointAt [Add S] [Sub S] [Mul S] (s : Segment S) (t : S) : Vec3 S := s.start + s.direction * t

variable [Scalar S]

/-- A segment as a line that ends at parameter one (`Line` for `LineSegment`). -/
def line (s : Segment S) : Line S := ⟨s.start, s.direction, 1⟩

/-- The midpoint (`LineSegment::center`). -/
def center (s : Segment S) : Vec3 S := (s.start + s.finish) * (Scalar.half : S)

/-- The distance of the ends (`LineSegment::length`). -/
def length (s : Segment S) : S := s.direction.norm

/-- The parameter of the point nearest to a given one, before it is brought to the segment (`t` in
`LineSegment::nearest_point_to`). -/
def paramOf (s : Segment S) (p : Vec3 S) : S :=
  s.direction.dot (p - s.start) / s.direction.normSq

/-- The point of the segment nearest to a given one: where the given point projects to, or the end
of the segment beyond which that is (`LineSegment::nearest_point_to`). A segment without length is
its start. -/
def nearestTo (s : Segment S) (p : Vec3 S) : Vec3 S :=
  if s.direction.normSq ≤ 0 then s.start
  else s.pointAt (min (max (s.paramOf p) 0) 1)

end Segment

instance [ToString S] : ToString (Ray S) :=
  ⟨fun r => s!"ray: origin = {r.origin}, direction = {r.direction}"⟩

instance [ToString S] : ToString (Segment S) :=
  ⟨fun s => s!"line segment: start = {s.start}, end = {s.finish}"⟩

/-! ## Remarks upon lines -/

/-- What a query remarks about the line it was asked for (the `trace!` messages). -/
inductive Note (S : Type) where
  | parallelLine (direction : Vec3 S)
  | degenerateLine
  deriving DecidableEq

/-- The wording of a remark. -/
def Note.message {S : Type} [ToString S] : Note S → String
  | parallelLine direction => s!"Line with direction {direction} is parallel to triangle plane"
  | degenerateLine => "Degenerate line starting outside of sphere, no intersection"

end HitTest
