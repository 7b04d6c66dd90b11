import HitTest.Trial.Comparison

/-!
# Lines leading away from the center of a box (`aabb::random_trials`)

A box is drawn by two of its points, and a base point. A line from there that leads away from the
center never enters the box if it is not inside already, for a box is convex, so a hit is expected
if the base point is inside.
-/

namespace HitTest

/-- A box, its center, and the point where the lines start. -/
structure BoxLine (S : Type) where
  box : Box S
  center : Vec3 S
  base : Vec3 S

namespace BoxLine

variable {G S : Type} [Scalar S]

/-- Draws two points of the box, and the base point (`aabb::random_trials`). -/
def draw [ScalarSource G S] : Draw G S (BoxLine S) := do
  let p ← Draw.vector
  let q ← Draw.vector
  let box := (Box.empty.expandBy p).expandBy q
  match box.center? with
  | none => throw .emptyBox
  | some center =>
    let base ← Draw.vector
    return ⟨box, center, base⟩

/-- Away from the center. -/
def direction (c : BoxLine S) : Vec3 S := c.base - c.center

/-- Compares the segment as long as the way from the center, and the ray
(`Tally::check`). -/
def trial (c : BoxLine S) : Trial S :=
  let compare := Comparison.ofBox c.box (c.box.contains c.base)
  { segment := compare (.segment ⟨c.base, c.base + c.direction⟩)
    ray := compare (.ray ⟨c.base, c.direction⟩) }

end BoxLine

end HitTest
