import HitTest.Proofs.Vec3
import HitTest.Shape.Any

/-!
# Scalars of shapes

What holds of all the scalars that a shape is given by.
-/

namespace HitTest

variable {S : Type} (P : S → Prop)

/-- A property of all scalars of a triangle. -/
def Triangle.All (t : Triangle S) : Prop := t.v0.All P ∧ t.v1.All P ∧ t.v2.All P

/-- A property of all scalars of a sphere. -/
def Sphere.All (s : Sphere S) : Prop := s.center.All P ∧ P s.radius

/-- A property of all scalars of a box. -/
def Box.All (b : Box S) : Prop := b.least.All P ∧ b.greatest.All P

/-- A property of all scalars of a plane. -/
def Plane.All (p : Plane S) : Prop := p.normal.All P ∧ P p.offset

/-- A property of all scalars of a ray. -/
def Ray.All (r : Ray S) : Prop := r.origin.All P ∧ r.direction.All P

/-- A property of all scalars of a segment. -/
def Segment.All (s : Segment S) : Prop := s.start.All P ∧ s.finish.All P

/-- A property of all scalars of a shape. -/
def Shape.All : Shape S → Prop
  | point p => p.All P
  | triangle t => t.All P
  | sphere s => s.All P
  | box b => b.All P
  | ray r => r.All P
  | segment s => s.All P
  | plane p => p.All P

end HitTest
