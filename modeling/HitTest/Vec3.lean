import HitTest.Scalar

/-!
# Vectors (`Vector3`)

Points and directions in space are triples of scalars. Sums of three terms are formed from the
first to the last.
-/

namespace HitTest

/-- A point or direction in space (`Vector3`). -/
structure Vec3 (S : Type) where
  x : S
  y : S
  z : S
  deriving DecidableEq, BEq

namespace Vec3

variable {S T U : Type}

/-- The vector with all three components the same. -/
def uniform (s : S) : Vec3 S := ⟨s, s, s⟩

/-- A function applied to each component. -/
def map (g : S → T) (a : Vec3 S) : Vec3 T := ⟨g a.x, g a.y, g a.z⟩

/-- A function applied to the components of two vectors, axis by axis. -/
def zipWith (g : S → T → U) (a : Vec3 S) (b : Vec3 T) : Vec3 U :=
  ⟨g a.x b.x, g a.y b.y, g a.z b.z⟩

instance [Zero S] : Zero (Vec3 S) := ⟨uniform 0⟩
instance [Add S] : Add (Vec3 S) := ⟨zipWith (· + ·)⟩
instance [Sub S] : Sub (Vec3 S) := ⟨zipWith (· - ·)⟩
instance [Mul S] : HMul (Vec3 S) S (Vec3 S) := ⟨fun a s => ⟨a.x * s, a.y * s, a.z * s⟩⟩
instance [Div S] : HDiv (Vec3 S) S (Vec3 S) := ⟨fun a s => ⟨a.x / s, a.y / s, a.z / s⟩⟩

/-- The inner product (`Vector3::dot`). -/
def dot [Add S] [Mul S] (a b : Vec3 S) : S := a.x * b.x + a.y * b.y + a.z * b.z

/-- The cross product (`Vector3::cross`). -/
def cross [Sub S] [Mul S] (a b : Vec3 S) : Vec3 S :=
  ⟨a.y * b.z - a.z * b.y, a.z * b.x - a.x * b.z, a.x * b.y - a.y * b.x⟩

/-- The squared length (`magnitude2`). -/
def normSq [Add S] [Mul S] (a : Vec3 S) : S := a.dot a

/-- The squared distance of two points (`distance2`). -/
def distSq [Add S] [Sub S] [Mul S] (a b : Vec3 S) : S := (b - a).normSq

/-! ## Lengths -/

variable [Scalar S]

/-- The length (`magnitude`). -/
def norm (a : Vec3 S) : S := Scalar.sqrt a.normSq

/-- The vector of the same direction and of length one (`normalize`). -/
def normalize (a : Vec3 S) : Vec3 S := a * (1 / a.norm)

/-- The distance of two points (`distance`). -/
def dist (a b : Vec3 S) : S := Scalar.sqrt (a.distSq b)

/-- The sum of the magnitudes of the components (`norm1`). -/
def norm1 (a : Vec3 S) : S := Scalar.abs a.x + Scalar.abs a.y + Scalar.abs a.z

/-! ## Tolerant comparison -/

/-- Whether two vectors differ by less than a share of their sizes and a fixed amount
(`equivalent_with`). -/
def equivalentWith (a b : Vec3 S) (relative absolute : S) : Bool :=
  decide ((a - b).norm1 < relative * (a.norm1 + b.norm1) + absolute)

/-- Whether two vectors are equal up to roundoff (`equivalent`). -/
def equivalent (a b : Vec3 S) : Bool := a.equivalentWith b Scalar.tolerance Scalar.tolerance

/-! ## Perpendicular directions -/

/-- The coordinate axis along which a vector is shortest, the first of them if there are several
(the `axis` of `perpendicular`). -/
def shortestAxis (a : Vec3 S) : Vec3 S :=
  let x := Scalar.abs a.x
  let y := Scalar.abs a.y
  let z := Scalar.abs a.z
  if x ≤ y ∧ x ≤ z then ⟨1, 0, 0⟩ else if y ≤ z then ⟨0, 1, 0⟩ else ⟨0, 0, 1⟩

/-- A direction perpendicular to a vector: its cross product with the axis along which it is
shortest, brought to length one unless it has no length (`perpendicular`). -/
def perpendicular (a : Vec3 S) : Vec3 S :=
  let p := a.cross a.shortestAxis
  let length := p.norm
  if 0 < length then p / length else p

end Vec3

instance {S : Type} [ToString S] : ToString (Vec3 S) :=
  ⟨fun a => s!"Vector3 [{a.x}, {a.y}, {a.z}]"⟩

end HitTest
