import HitTest.Vec3

/-!
# Spheres

A sphere is solid. Radius zero makes it a single point, and a radius below zero makes it empty.
-/

namespace HitTest

/-- The points within a radius of a center (`Sphere`). -/
structure Sphere (S : Type) where
  center : Vec3 S
  radius : S
  deriving DecidableEq, BEq

namespace Sphere

/-- A radius that no sphere is made with (the assertion of `Sphere::new`). -/
structure BadRadius (S : Type) where
  radius : S

/-- What is wrong with a radius. -/
def BadRadius.message {S : Type} [ToString S] (e : BadRadius S) : String :=
  s!"Sphere radius must not be negative, was {e.radius}"

variable {S : Type}

/-- The squared radius (`Sphere::radius2`). -/
def radiusSq [Mul S] (s : Sphere S) : S := s.radius * s.radius

variable [Scalar S]

/-- The sphere with a center and a radius, which has to be at least zero (`Sphere::new`). -/
def ofRadius (center : Vec3 S) (radius : S) : Except (BadRadius S) (Sphere S) :=
  if 0 ≤ radius then .ok ⟨center, radius⟩ else .error ⟨radius⟩

/-- The sphere that contains nothing and takes the place of the first point it is grown by
(`Sphere::empty`). -/
def empty : Sphere S := ⟨0, -1⟩

/-- Whether the radius is below zero (`Sphere::is_empty`). -/
def isEmpty (s : Sphere S) : Bool := decide (s.radius < 0)

/-- Whether a point is inside or on the surface (`Sphere::contains`). -/
def contains (s : Sphere S) (p : Vec3 S) : Bool :=
  !s.isEmpty && decide (s.center.distSq p ≤ s.radiusSq)

/-- The sphere grown to contain a point (`Sphere::expand_by`). The center moves toward the point
until the new sphere touches both the point and the far side of the old sphere. -/
def expandBy (s : Sphere S) (p : Vec3 S) : Sphere S :=
  if s.isEmpty then ⟨p, 0⟩
  else
    let dist := s.center.dist p
    if dist ≤ s.radius then s
    else
      let radius := (s.radius + dist) / Scalar.two
      let shift := (radius - s.radius) / dist
      ⟨s.center + (p - s.center) * shift, radius⟩

end Sphere

instance {S : Type} [ToString S] : ToString (Sphere S) :=
  ⟨fun s => s!"sphere: center = {s.center}, radius = {s.radius}"⟩

end HitTest
