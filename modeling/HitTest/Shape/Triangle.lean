import HitTest.Shape.Plane

/-!
# Triangles

The order of the vertices gives a triangle its orientation. Edges and barycentric coordinates are
taken from the first vertex, the base.
-/

namespace HitTest

/-- The triangle on three vertices (`Triangle`). -/
structure Triangle (S : Type) where
  v0 : Vec3 S
  v1 : Vec3 S
  v2 : Vec3 S
  deriving DecidableEq, BEq

/-- The weights of the three vertices at a point of their plane; they add up to one (the `[w, u, v]`
of `Triangle::barycentric_at`). -/
structure Barycentric (S : Type) where
  w : S
  u : S
  v : S
  deriving DecidableEq

namespace Triangle

/-- The number of an edge that does not leave the base (the assertion of `Triangle::edge`). -/
structure NoSuchEdge where
  index : Nat

/-- What is wrong with the number of an edge. -/
def NoSuchEdge.message (e : NoSuchEdge) : String :=
  s!"A triangle has two edges leaving its base vertex, got {e.index}"

variable {S : Type}

/-- The first edge leaving the base (`edge(0)`). -/
def edge0 [Sub S] (t : Triangle S) : Vec3 S := t.v1 - t.v0

/-- The second edge leaving the base (`edge(1)`). -/
def edge1 [Sub S] (t : Triangle S) : Vec3 S := t.v2 - t.v0

/-- The edge leaving the base that has a number, `0` or `1` (`Triangle::edge`). -/
def edge [Sub S] (t : Triangle S) (i : Nat) : Except NoSuchEdge (Vec3 S) :=
  match i with
  | 0 => .ok t.edge0
  | 1 => .ok t.edge1
  | i => .error ⟨i⟩

/-- A normal whose length is twice the area (`Triangle::scaled_normal`). -/
def scaledNormal [Sub S] [Mul S] (t : Triangle S) : Vec3 S := t.edge0.cross t.edge1

/-- The point whose coordinates along the edges are `u` and `v` (`Triangle::point_at`). -/
def pointAt [Add S] [Sub S] [Mul S] (t : Triangle S) (u v : S) : Vec3 S :=
  t.v0 + t.edge0 * u + t.edge1 * v

/-- The squared area of the parallelogram on the edges, by their inner products (`denom` in
`Triangle::barycentric_at`). -/
def gram [Add S] [Sub S] [Mul S] (t : Triangle S) : S :=
  t.edge0.dot t.edge0 * t.edge1.dot t.edge1 - t.edge0.dot t.edge1 * t.edge0.dot t.edge1

/-- The volume of the parallelepiped on the edges and the direction of a line (`det` in
`intersect_line_with_tri`). -/
def determinant [Add S] [Sub S] [Mul S] (t : Triangle S) (direction : Vec3 S) : S :=
  t.edge0.dot (direction.cross t.edge1)

variable [Scalar S]

/-- The normal of length one (`Triangle::normal`). -/
def normal (t : Triangle S) : Vec3 S := t.scaledNormal.normalize

/-- The area from the lengths of the sides (`Triangle::area`). What roundoff takes below zero is
brought back to it before the root. -/
def area (t : Triangle S) : S :=
  let a := (t.v0 - t.v1).norm
  let b := (t.v1 - t.v2).norm
  let c := (t.v2 - t.v0).norm
  let s := (a + b + c) / Scalar.two
  Scalar.sqrt (max (s * (s - a) * (s - b) * (s - c)) 0)

/-- The mean of the vertices (`Triangle::center`). -/
def center (t : Triangle S) : Vec3 S := (t.v0 + t.v1 + t.v2) * (Scalar.ofFraction 1 3 : S)

/-- The weights at the point of the plane nearest to a given one (`Triangle::barycentric_at`). -/
def barycentricAt (t : Triangle S) (p : Vec3 S) : Barycentric S :=
  let d := p - t.v0
  let d00 := t.edge0.dot t.edge0
  let d01 := t.edge0.dot t.edge1
  let d11 := t.edge1.dot t.edge1
  let d20 := d.dot t.edge0
  let d21 := d.dot t.edge1
  let u := (d11 * d20 - d01 * d21) / t.gram
  let v := (d00 * d21 - d01 * d20) / t.gram
  ⟨1 - u - v, u, v⟩

/-- The plane of the triangle, oriented like it (`Triangle::plane`). -/
def plane (t : Triangle S) : Plane S := .ofPoints t.v0 t.v1 t.v2

end Triangle

instance {S : Type} [ToString S] : ToString (Triangle S) :=
  ⟨fun t => s!"triangle: v0 = {t.v0}, v1 = {t.v1}, v2 = {t.v2}"⟩

end HitTest
