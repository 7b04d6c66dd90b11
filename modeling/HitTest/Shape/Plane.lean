import HitTest.Vec3

/-!
# Planes

A plane is given by a normal and an offset; its points are those `p` with
`normal · p + offset = 0`.
-/

namespace HitTest

/-- The points `p` with `normal · p + offset = 0` (`Plane`, with the offset as `dist`). -/
structure Plane (S : Type) where
  normal : Vec3 S
  offset : S
  deriving DecidableEq, BEq

namespace Plane

variable {S : Type} [Scalar S]

/-- The plane through three points, with the normal of the triangle they form
(`Plane::from_points`). -/
def ofPoints (a b c : Vec3 S) : Plane S :=
  let normal := ((b - a).cross (c - a)).normalize
  ⟨normal, -normal.dot a⟩

/-- The distance of a point, positive on the side of the normal, in multiples of its length
(`Plane::distance_to`). -/
def distanceTo (pl : Plane S) (p : Vec3 S) : S := pl.normal.dot p + pl.offset

end Plane

instance {S : Type} [ToString S] : ToString (Plane S) :=
  ⟨fun pl => s!"plane: normal = {pl.normal}, dist = {pl.offset}"⟩

end HitTest
