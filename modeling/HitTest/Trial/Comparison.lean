import HitTest.Query.Solid
import HitTest.Query.Surface
import HitTest.Random.Draw
import HitTest.Trial.Tally

/-!
# Comparisons

A trial queries a shape with a segment and then with a ray, and compares both answers with the
expected one. A comparison keeps the configuration it was made for, so that a mismatch can be shown
with everything that is needed to repeat it.
-/

namespace HitTest

/-- A segment or a ray (the second argument of `intersects`). -/
inductive Probe (S : Type) where
  | segment (s : Segment S)
  | ray (r : Ray S)
  deriving DecidableEq

namespace Probe

/-- The line that a segment or ray is part of. -/
def line {S : Type} [Scalar S] : Probe S → Line S
  | segment s => s.line
  | ray r => r.line

instance {S : Type} [ToString S] : ToString (Probe S) where
  toString
    | .segment s => toString s
    | .ray r => toString r

end Probe

/-- The configuration of a comparison: the shape, what it was queried with, and the scalars from
which the outcome is known (what a `debug!` message shows). -/
inductive Subject (S : Type) where
  | triangle (u v t : S) (triangle : Triangle S) (probe : Probe S)
  | sphere (t : S) (sphere : Sphere S) (probe : Probe S)
  | box (box : Box S) (probe : Probe S)
  deriving DecidableEq

namespace Subject

/-- The kind of query (the names in the `debug!` messages). -/
def kind {S : Type} : Subject S → String
  | triangle _ _ _ _ (.segment _) => "line segment"
  | triangle _ _ _ _ (.ray _) => "ray"
  | sphere _ _ (.segment _) => "sphere line"
  | sphere _ _ (.ray _) => "sphere ray"
  | box _ (.segment _) => "box line"
  | box _ (.ray _) => "box ray"

/-- The configuration in full (the lines of a `debug!` message below the first). -/
def description {S : Type} [ToString S] : Subject S → String
  | triangle u v t tri probe => s!"u = {u}, v = {v}, t = {t}\n{tri}\n{probe}"
  | sphere t s probe => s!"t = {t}\n{s}\n{probe}"
  | box b probe => s!"{b}\n{probe}"

end Subject

/-- A query compared with its known outcome. -/
structure Comparison (S : Type) where
  subject : Subject S
  notes : List (Note S)
  mismatch : Option Mismatch
  deriving DecidableEq

namespace Comparison

variable {S : Type} [Scalar S]

/-- Queries a triangle; a hit is expected at a point or not at all (`check_point` of
`intersection_point`). -/
def ofTriangle (u v t : S) (tri : Triangle S) (expected : Bool) (point : Vec3 S) (probe : Probe S) :
    Comparison S :=
  let crossing := tri.crossing probe.line
  { subject := .triangle u v t tri probe
    notes := crossing.notes probe.line
    mismatch := Mismatch.ofPoint expected point (crossing.point? tri) }

/-- Queries a sphere (`Tally::check` of `intersects` in `check_lines`). -/
def ofSphere (t : S) (s : Sphere S) (expected : Bool) (probe : Probe S) : Comparison S :=
  let contact := s.contact probe.line
  { subject := .sphere t s probe
    notes := contact.notes
    mismatch := Mismatch.ofAnswer expected (contact.isHit probe.line) }

/-- Queries a box (`Tally::check` of `intersects` in `aabb::random_trials`). -/
def ofBox (b : Box S) (expected : Bool) (probe : Probe S) : Comparison S :=
  { subject := .box b probe
    notes := []
    mismatch := Mismatch.ofAnswer expected (b.meetsLine probe.line) }

end Comparison

/-- The two comparisons of a trial. -/
structure Trial (S : Type) where
  segment : Comparison S
  ray : Comparison S
  deriving DecidableEq

end HitTest
