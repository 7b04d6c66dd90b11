import HitTest.Vec3

/-!
# Vectors by components

What holds of a vector on every axis, the components of sums, differences and multiples, and the
component along an axis that is given.
-/

namespace HitTest

attribute [ext] Vec3

namespace Vec3

variable {S T : Type}

/-- A property of every component. -/
def All (P : S → Prop) (a : Vec3 S) : Prop := P a.x ∧ P a.y ∧ P a.z

instance {P : S → Prop} [DecidablePred P] (a : Vec3 S) : Decidable (a.All P) :=
  inferInstanceAs (Decidable (P a.x ∧ P a.y ∧ P a.z))

theorem All.mono {P Q : S → Prop} {a : Vec3 S} (h : ∀ s, P s → Q s) (ha : a.All P) : a.All Q :=
  ⟨h _ ha.1, h _ ha.2.1, h _ ha.2.2⟩

section Components

variable (a b : Vec3 S) (s : S) (g : S → T)

@[simp] theorem zero_x [Zero S] : (0 : Vec3 S).x = 0 := rfl
@[simp] theorem zero_y [Zero S] : (0 : Vec3 S).y = 0 := rfl
@[simp] theorem zero_z [Zero S] : (0 : Vec3 S).z = 0 := rfl

@[simp] theorem add_x [Add S] : (a + b).x = a.x + b.x := rfl
@[simp] theorem add_y [Add S] : (a + b).y = a.y + b.y := rfl
@[simp] theorem add_z [Add S] : (a + b).z = a.z + b.z := rfl

@[simp] theorem sub_x [Sub S] : (a - b).x = a.x - b.x := rfl
@[simp] theorem sub_y [Sub S] : (a - b).y = a.y - b.y := rfl
@[simp] theorem sub_z [Sub S] : (a - b).z = a.z - b.z := rfl

@[simp] theorem mul_x [Mul S] : (a * s).x = a.x * s := rfl
@[simp] theorem mul_y [Mul S] : (a * s).y = a.y * s := rfl
@[simp] theorem mul_z [Mul S] : (a * s).z = a.z * s := rfl

@[simp] theorem div_x [Div S] : (a / s).x = a.x / s := rfl
@[simp] theorem div_y [Div S] : (a / s).y = a.y / s := rfl
@[simp] theorem div_z [Div S] : (a / s).z = a.z / s := rfl

@[simp] theorem map_x : (a.map g).x = g a.x := rfl
@[simp] theorem map_y : (a.map g).y = g a.y := rfl
@[simp] theorem map_z : (a.map g).z = g a.z := rfl

end Components

end Vec3

/-! ## Axes -/

/-- One of the three axes. -/
inductive Axis where
  | x
  | y
  | z

theorem Axis.forall_iff {P : Axis → Prop} : (∀ i, P i) ↔ P .x ∧ P .y ∧ P .z := by
  constructor
  · intro h
    exact ⟨h .x, h .y, h .z⟩
  · rintro ⟨hx, hy, hz⟩ i
    cases i with
    | x => exact hx
    | y => exact hy
    | z => exact hz

/-- The component along an axis. -/
def Vec3.coord {S : Type} (a : Vec3 S) : Axis → S
  | .x => a.x
  | .y => a.y
  | .z => a.z

theorem Vec3.all_iff_coord {S : Type} {P : S → Prop} {a : Vec3 S} :
    a.All P ↔ ∀ i, P (a.coord i) := by
  rw [Axis.forall_iff]
  rfl

theorem Vec3.beq_iff_coord {S : Type} [BEq S] {a b : Vec3 S} :
    (a == b) = true ↔ ∀ i, (a.coord i == b.coord i) = true := by
  have h : (a == b) = true ↔ (a.x == b.x) = true ∧ (a.y == b.y) = true ∧ (a.z == b.z) = true := by
    change instBEqVec3.beq a b = true ↔ _
    unfold instBEqVec3.beq
    simp
  rw [h, Axis.forall_iff]
  rfl

theorem Vec3.coord_sub {S : Type} [Sub S] (a b : Vec3 S) (i : Axis) :
    (a - b).coord i = a.coord i - b.coord i := by cases i <;> rfl

end HitTest
