import HitTest.Vec3

/-!
# Axis-aligned boxes (`Aabb`)

A box is given by its least and greatest corner. A box with the corners the wrong way round on some
axis is empty, and the empty box to start from has its least corner at infinity and its greatest at
minus infinity, so that the first point it is grown by becomes both corners.
-/

namespace HitTest

/-- The points between two corners on every axis (`Aabb`, with the corners as `min` and `max`). -/
structure Box (S : Type) where
  least : Vec3 S
  greatest : Vec3 S
  deriving DecidableEq, BEq

namespace Box

variable {S : Type} [Scalar S]

/-- The box that contains nothing and takes the shape of what it is grown by (`Aabb::empty`). -/
def empty : Box S := ⟨.uniform Scalar.infinity, .uniform (-Scalar.infinity)⟩

/-- The box that is a single point (`Spatial` for `Vector3`). -/
def point (p : Vec3 S) : Box S := ⟨p, p⟩

/-- Whether the corners are the wrong way round on some axis (`Aabb::is_empty`). -/
def isEmpty (b : Box S) : Bool :=
  decide (b.greatest.x < b.least.x) || decide (b.greatest.y < b.least.y) ||
    decide (b.greatest.z < b.least.z)

/-- The box grown to contain a point (`Aabb::expand_by`). -/
def expandBy (b : Box S) (p : Vec3 S) : Box S :=
  ⟨b.least.zipWith min p, b.greatest.zipWith max p⟩

/-- The box grown to contain another one, which changes nothing if that is empty
(`Aabb::expand_by_aabb`). -/
def expandByBox (b other : Box S) : Box S :=
  if other.isEmpty then b else (b.expandBy other.least).expandBy other.greatest

/-- The smallest box around some points (`Aabb::from_points`). -/
def ofPoints (ps : List (Vec3 S)) : Box S := ps.foldl expandBy empty

/-- The smallest box around some boxes (`Aabb::union`). -/
def union (bs : List (Box S)) : Box S := bs.foldl expandByBox empty

/-- The midpoint, unless the box is empty (`Aabb::center`). -/
def center? (b : Box S) : Option (Vec3 S) :=
  if b.isEmpty then none else some ((b.least + b.greatest) * (Scalar.half : S))

/-- The lengths of the edges (`Aabb::size`). -/
def size (b : Box S) : Vec3 S := b.greatest - b.least

/-- Half the lengths of the edges (`Aabb::half_size`). -/
def halfSize (b : Box S) : Vec3 S := b.size * (Scalar.half : S)

/-- The volume, which is zero for an empty box (`Aabb::volume`). -/
def volume (b : Box S) : S := if b.isEmpty then 0 else b.size.x * b.size.y * b.size.z

/-- Whether a point is beyond a face (`Aabb::is_point_outside`). -/
def excludes (b : Box S) (p : Vec3 S) : Bool :=
  decide (p.x < b.least.x) || decide (b.greatest.x < p.x) ||
    decide (p.y < b.least.y) || decide (b.greatest.y < p.y) ||
      decide (p.z < b.least.z) || decide (b.greatest.z < p.z)

/-- Whether a point is inside; faces, edges and corners are (`Aabb::contains`). -/
def contains (b : Box S) (p : Vec3 S) : Bool := !b.excludes p

/-- Whether both corners of another box are inside (`Aabb::is_aabb_inside`). -/
def containsBox (b other : Box S) : Bool := b.contains other.least && b.contains other.greatest

/-- The corner that comes first in a direction (`Aabb::nearest_corner`). -/
def nearestCorner (b : Box S) (dir : Vec3 S) : Vec3 S :=
  ⟨if dir.x < 0 then b.greatest.x else b.least.x,
    if dir.y < 0 then b.greatest.y else b.least.y,
    if dir.z < 0 then b.greatest.z else b.least.z⟩

/-- The corner that comes last in a direction (`Aabb::farthest_corner`). -/
def farthestCorner (b : Box S) (dir : Vec3 S) : Vec3 S :=
  ⟨if dir.x < 0 then b.least.x else b.greatest.x,
    if dir.y < 0 then b.least.y else b.greatest.y,
    if dir.z < 0 then b.least.z else b.greatest.z⟩

end Box

instance {S : Type} [ToString S] : ToString (Box S) :=
  ⟨fun b => s!"box: min = {b.least}, max = {b.greatest}"⟩

end HitTest
