import HitTest.Query.Surface

/-!
# Lines through the boundary of a triangle (`BOUNDARY_CASES`)

Besides the drawn trials there is a fixed list of lines through the vertices and edges of one
triangle, and just past them, with known outcomes.
-/

namespace HitTest

namespace Boundary

variable {S : Type} [Scalar S]

/-- A line from the point above the triangle, and whether it hits (`BoundaryCase`). -/
structure Case (S : Type) where
  line : Line S
  hit : Bool

/-- The triangle on the first two axes. -/
def triangle : Triangle S := ⟨⟨0, 0, 0⟩, ⟨1, 0, 0⟩, ⟨0, 1, 0⟩⟩

/-- The point above the base of the triangle. -/
def origin : Vec3 S := ⟨0, 0, 1⟩

/-- One tenth of a number. -/
def tenths (n : Nat) : S := Scalar.ofFraction n 10

/-- The ray in a direction. -/
def rayCase (x y z : S) (hit : Bool) : Case S := ⟨(Ray.mk origin ⟨x, y, z⟩).line, hit⟩

/-- The segment to a point. -/
def segmentCase (x y z : S) (hit : Bool) : Case S := ⟨(Segment.mk origin ⟨x, y, z⟩).line, hit⟩

/-- Lines into the triangle and to its base, through the middle of each edge, and just past the
edges (`BOUNDARY_CASES`). -/
def cases : List (Case S) :=
  [rayCase (tenths 1) (tenths 1) (-1) true,
    rayCase 0 0 (-1) true,
    segmentCase (tenths 1) (tenths 1) (-1) true,
    segmentCase 0 0 (-1) true,
    segmentCase 0 1 (-1) true,
    segmentCase 1 0 (-1) true,
    segmentCase 1 1 (-1) true,
    segmentCase 1 1 (-tenths 9) false,
    segmentCase 0 (-tenths 1) (-1) false,
    segmentCase (-tenths 1) (-tenths 1) (-1) false,
    segmentCase (-tenths 1) 0 (-1) false]

/-- Whether the query answers a case right. -/
def Case.passes (c : Case S) : Bool := (triangle.hit? c.line).isSome == c.hit

/-- The number, counted from one, of the first case that is answered wrong
(`failed_boundary_case`). -/
def firstFailure? (S : Type) [Scalar S] : Option Nat :=
  ((cases : List (Case S)).findIdx? fun c => !c.passes).map (· + 1)

/-- What is remarked while the cases are asked in order, up to the first that is answered wrong. -/
def notes (S : Type) [Scalar S] : List (Note S) :=
  let asked := (firstFailure? S).getD (cases : List (Case S)).length
  ((cases : List (Case S)).take asked).flatMap fun c => (triangle.crossing c.line).notes c.line

end Boundary

end HitTest
