import HitTest.Shape.Box
import HitTest.Shape.Line
import HitTest.Shape.Sphere

/-!
# What shares a point with a solid (`Intersects`)

Boxes and spheres contain their surface, so touching counts. An empty solid shares a point with
nothing.
-/

namespace HitTest

variable {S : Type} [Scalar S]

/-! ## Boxes -/

/-- A range of parameters of a line (`near` and `far` in `intersect_line_with_aabb`). -/
structure Span (S : Type) where
  near : S
  far : S
  deriving DecidableEq

namespace Span

/-- The part of a range at which one coordinate of a line, `o + s * d`, is between two bounds (one
axis of the loop in `intersect_line_with_aabb`). A line that does not move along the axis is between
them always or never. -/
def clip (r : Span S) (o d lower upper : S) : Option (Span S) :=
  if Scalar.abs d ≤ Scalar.minPositive then
    if o < lower ∨ upper < o then none else some r
  else
    let inverse := 1 / d
    let a := (lower - o) * inverse
    let b := (upper - o) * inverse
    let near := max r.near (if b < a then b else a)
    let far := min r.far (if b < a then a else b)
    if far < near then none else some ⟨near, far⟩

end Span

namespace Box

/-- The range of parameters at which a line is in a box: what is left of the line between the faces
of each axis in turn (the loop in `intersect_line_with_aabb`). -/
def clip (b : Box S) (l : Line S) : Option (Span S) := do
  let r ← (Span.mk 0 l.maxParam).clip l.origin.x l.direction.x b.least.x b.greatest.x
  let r ← r.clip l.origin.y l.direction.y b.least.y b.greatest.y
  r.clip l.origin.z l.direction.z b.least.z b.greatest.z

/-- Whether some point of a line is in a box (`intersect_line_with_aabb`). -/
def meetsLine (b : Box S) (l : Line S) : Bool := !b.isEmpty && (b.clip l).isSome

/-- Whether two boxes share a point (`Intersects<Aabb>` for `Aabb`). -/
def meetsBox (a b : Box S) : Bool :=
  !a.isEmpty && !b.isEmpty &&
    decide (a.least.x ≤ b.greatest.x) && decide (b.least.x ≤ a.greatest.x) &&
    decide (a.least.y ≤ b.greatest.y) && decide (b.least.y ≤ a.greatest.y) &&
    decide (a.least.z ≤ b.greatest.z) && decide (b.least.z ≤ a.greatest.z)

/-- The point of a box that is nearest to a given one (`closest` in `Intersects<Aabb>` for
`Sphere`). -/
def nearestTo (b : Box S) (p : Vec3 S) : Vec3 S :=
  (p.zipWith max b.least).zipWith min b.greatest

end Box

/-! ## Spheres -/

namespace Sphere

/-- How a line meets a sphere (the ways out of `intersect_line_with_sphere`). -/
inductive Contact (S : Type) where
  /-- The sphere is empty. -/
  | nothing
  /-- The line starts inside or on the surface. -/
  | inside
  /-- The line has no direction, and its only point is outside. -/
  | degenerate
  /-- The line, continued both ways, stays outside. -/
  | apart
  /-- The line, continued both ways, enters and leaves the sphere at two parameters. -/
  | through (near far : S)
  deriving DecidableEq

/-- Where a line meets a sphere, from the roots of
`|origin + s * direction - center| ^ 2 = radius ^ 2` (`intersect_line_with_sphere`). -/
def contact (s : Sphere S) (l : Line S) : Contact S :=
  if s.isEmpty then .nothing
  else
    let offset := l.origin - s.center
    let c := offset.normSq - s.radiusSq
    if c ≤ 0 then .inside
    else
      let a := l.direction.normSq
      if a ≤ 0 then .degenerate
      else
        let b := l.direction.dot offset
        let discriminant := b * b - a * c
        if discriminant < 0 then .apart
        else
          let root := Scalar.sqrt discriminant
          .through ((-b - root) / a) ((-b + root) / a)

/-- Whether the part of a line that is present reaches the sphere (the answer of
`intersect_line_with_sphere`). -/
def Contact.isHit (l : Line S) : Contact S → Bool
  | inside => true
  | through near far => decide (near ≤ l.maxParam) && decide (0 ≤ far)
  | nothing => false
  | degenerate => false
  | apart => false

/-- A contact is remarked upon if the line has no direction (the `trace!` of
`intersect_line_with_sphere`). -/
def Contact.notes : Contact S → List (Note S)
  | degenerate => [.degenerateLine]
  | nothing => []
  | inside => []
  | apart => []
  | through .. => []

/-- Whether some point of a line is in a sphere (`intersect_line_with_sphere`). -/
def meetsLine (s : Sphere S) (l : Line S) : Bool := (s.contact l).isHit l

/-- Whether two spheres share a point (`Intersects<Sphere>` for `Sphere`). -/
def meetsSphere (s t : Sphere S) : Bool :=
  let reach := s.radius + t.radius
  !s.isEmpty && !t.isEmpty && decide (s.center.distSq t.center ≤ reach * reach)

/-- Whether a sphere and a box share a point, which the point of the box nearest to the center then
is (`Intersects<Aabb>` for `Sphere`, `Intersects<Sphere>` for `Aabb`). -/
def meetsBox (s : Sphere S) (b : Box S) : Bool :=
  !s.isEmpty && !b.isEmpty && decide (s.center.distSq (b.nearestTo s.center) ≤ s.radiusSq)

end Sphere

end HitTest
