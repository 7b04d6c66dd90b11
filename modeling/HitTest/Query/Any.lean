import HitTest.Query.Solid
import HitTest.Query.Surface
import HitTest.Shape.Any

/-!
# Queries between shapes of any kind (`Intersects`, `IntersectionPoint`)

Surfaces are asked for their crossing with a ray or segment, solids for a point shared with a ray,
a segment, a point or a solid. Other kinds cannot be asked.
-/

namespace HitTest

variable {S : Type} [Scalar S]

/-- Whether a sphere shares a point with a shape, for kinds that it can be asked for
(`Intersects` for `Sphere`). -/
def Sphere.meets? (s : Sphere S) : Shape S → Option Bool
  | .point p => some (s.contains p)
  | .sphere t => some (s.meetsSphere t)
  | .box b => some (s.meetsBox b)
  | .ray r => some (s.meetsLine r.line)
  | .segment g => some (s.meetsLine g.line)
  | .triangle _ => none
  | .plane _ => none

/-- Whether a box shares a point with a shape, for kinds that it can be asked for
(`Intersects` for `Aabb`). -/
def Box.meets? (b : Box S) : Shape S → Option Bool
  | .point p => some (b.contains p)
  | .sphere s => some (s.meetsBox b)
  | .box c => some (b.meetsBox c)
  | .ray r => some (b.meetsLine r.line)
  | .segment g => some (b.meetsLine g.line)
  | .triangle _ => none
  | .plane _ => none

namespace Shape

/-- The point in which a surface is crossed by a ray or segment, for kinds that can be asked
(`intersection_point`). -/
def hit? (a b : Shape S) : Option (Option (Vec3 S)) :=
  match a with
  | triangle t => b.line?.map t.hit?
  | plane p => b.line?.map p.hit?
  | _ => none

/-- Whether two shapes share a point, for kinds that can be asked (`intersects`). -/
def meets? (a b : Shape S) : Option Bool :=
  match a with
  | sphere s => s.meets? b
  | box c => c.meets? b
  | _ => (a.hit? b).map Option.isSome

/-- What a query for two shapes remarks. -/
def notes (a b : Shape S) : List (Note S) :=
  match a, b.line? with
  | triangle t, some l => (t.crossing l).notes l
  | sphere s, some l => (s.contact l).notes
  | _, _ => []

end Shape

end HitTest
