import HitTest.Proofs.Binary.Value
import HitTest.Scalar
import Mathlib.Algebra.Order.Field.Basic
import Mathlib.Algebra.Order.Monoid.WithTop
import Mathlib.Analysis.Real.Sqrt
import Mathlib.Data.Rat.Cast.CharZero

/-!
# Exact scalars

The geometry can also be done in an ordered field, without rounding. A field has no infinities, so a
bottom and a top are adjoined; they are compared, and calculated with where the result is plain. The
square root and the two small constants are whatever the field is read with.

Facts about queries are stated for elements of the field. The `simp` lemmas here collect `value`
on the outside of an expression, so that a query over `value`s becomes a condition on the field.
-/

namespace HitTest

/-- What an ordered field is read with as a scalar. -/
structure Exact.Params (K : Type) [Field K] [LinearOrder K] where
  sqrt : K → K
  epsilon : K
  minPositive : K
  minPositive_pos : 0 < minPositive

/-- The elements of an ordered field, and something below and above all of them. -/
inductive Exact {K : Type} [Field K] [LinearOrder K] (P : Exact.Params K) where
  | bottom
  | value (x : K)
  | top

namespace Exact

variable {K : Type} [Field K] [LinearOrder K] {P : Params K} {x y : K}

/-! ## Order -/

/-- The order with a bottom and a top. -/
def extended : Exact P → WithBot (WithTop K)
  | bottom => ⊥
  | value x => ((x : WithTop K) : WithBot (WithTop K))
  | top => ((⊤ : WithTop K) : WithBot (WithTop K))

theorem extended_injective : Function.Injective (extended : Exact P → WithBot (WithTop K)) := by
  intro a b h
  cases a <;> cases b <;> simp_all [extended]

instance : LinearOrder (Exact P) := LinearOrder.lift' extended extended_injective

/-! ## Operations -/

/-- The infinity with the sign of an element. -/
def infinite (x : K) : Exact P := if 0 < x then top else if x < 0 then bottom else value 0

/-- The opposite. -/
def neg : Exact P → Exact P
  | bottom => top
  | value x => value (-x)
  | top => bottom

/-- The sum. An infinity stays as it is when an element is added. -/
def add : Exact P → Exact P → Exact P
  | value x, value y => value (x + y)
  | bottom, _ => bottom
  | _, bottom => bottom
  | top, _ => top
  | _, top => top

/-- The product. An infinity keeps or changes its sign with that of an element. -/
def mul : Exact P → Exact P → Exact P
  | value x, value y => value (x * y)
  | top, value y => infinite y
  | bottom, value y => infinite (-y)
  | value x, top => infinite x
  | value x, bottom => infinite (-x)
  | top, top => top
  | bottom, bottom => top
  | top, bottom => bottom
  | bottom, top => bottom

/-- The reciprocal, which is zero for infinities. -/
def inv : Exact P → Exact P
  | value x => value x⁻¹
  | top => value 0
  | bottom => value 0

/-- The square root. -/
def sqrt : Exact P → Exact P
  | bottom => bottom
  | value x => value (P.sqrt x)
  | top => top

/-- What a number of 64 bits stands for. -/
def ofBinary64 : Binary64 → Exact P
  | .nan => value 0
  | .number s r h =>
    if r = Format.top .double then infinite (signFactor s) else value (Binary.number s r h).value

instance : Scalar (Exact P) where
  zero := value 0
  one := value 1
  add := add
  sub a b := a.add b.neg
  mul := mul
  div a b := a.mul b.inv
  neg := neg
  lt a b := a < b
  le a b := a ≤ b
  min a b := min a b
  max a b := max a b
  decidableLT a b := inferInstanceAs (Decidable (a < b))
  decidableLE a b := inferInstanceAs (Decidable (a ≤ b))
  abs a := max a a.neg
  sqrt := sqrt
  infinity := top
  epsilon := value P.epsilon
  minPositive := value P.minPositive
  ofBinary64 := ofBinary64

/-! ## Constants and operations on elements -/

@[simp] theorem zero_eq : (0 : Exact P) = value 0 := by rfl

@[simp] theorem one_eq : (1 : Exact P) = value 1 := by rfl

@[simp] theorem infinity_eq : (Scalar.infinity : Exact P) = top := by rfl

@[simp] theorem minPositive_eq : (Scalar.minPositive : Exact P) = value P.minPositive := by rfl

@[simp] theorem neg_value : (-value x : Exact P) = value (-x) := by rfl

@[simp] theorem add_value : (value x + value y : Exact P) = value (x + y) := by rfl

@[simp] theorem sub_value : (value x - value y : Exact P) = value (x - y) :=
  congrArg value (sub_eq_add_neg x y).symm

@[simp] theorem mul_value : (value x * value y : Exact P) = value (x * y) := by rfl

@[simp] theorem div_value : (value x / value y : Exact P) = value (x / y) :=
  congrArg value (div_eq_mul_inv x y).symm

@[simp] theorem sqrt_value : Scalar.sqrt (value x : Exact P) = value (P.sqrt x) := by rfl

/-! ## Infinities in sums and products -/

@[simp] theorem neg_top : (-top : Exact P) = bottom := by rfl

@[simp] theorem top_sub_value : (top - value x : Exact P) = top := by rfl

@[simp] theorem bottom_sub_value : (bottom - value x : Exact P) = bottom := by rfl

@[simp] theorem top_add_top : (top + top : Exact P) = top := by rfl

@[simp] theorem top_add_value : (top + value x : Exact P) = top := by rfl

@[simp] theorem value_add_top : (value x + top : Exact P) = top := by rfl

theorem infinite_of_pos (h : 0 < x) : (infinite x : Exact P) = top := if_pos h

theorem infinite_of_neg (h : x < 0) : (infinite x : Exact P) = bottom := by
  rw [infinite, if_neg h.not_gt, if_pos h]

theorem top_mul_of_pos (h : 0 < x) : (top * value x : Exact P) = top := infinite_of_pos h

theorem top_mul_of_neg (h : x < 0) : (top * value x : Exact P) = bottom := infinite_of_neg h

theorem bottom_mul_of_pos [IsStrictOrderedRing K] (h : 0 < x) :
    (bottom * value x : Exact P) = bottom := infinite_of_neg (neg_lt_zero.2 h)

theorem bottom_mul_of_neg [IsStrictOrderedRing K] (h : x < 0) :
    (bottom * value x : Exact P) = top := infinite_of_pos (neg_pos.2 h)

/-! ## Comparison -/

theorem le_iff_extended {a b : Exact P} : a ≤ b ↔ a.extended ≤ b.extended := Iff.rfl

theorem lt_iff_extended {a b : Exact P} : a < b ↔ a.extended < b.extended := Iff.rfl

@[simp] theorem value_le_value : (value x : Exact P) ≤ value y ↔ x ≤ y := by
  simp [le_iff_extended, extended]

@[simp] theorem value_lt_value : (value x : Exact P) < value y ↔ x < y := by
  simp [lt_iff_extended, extended]

@[simp] theorem le_top (a : Exact P) : a ≤ top := by
  cases a <;> simp [le_iff_extended, extended]

@[simp] theorem bottom_le (a : Exact P) : bottom ≤ a := by
  simp [le_iff_extended, extended]

@[simp] theorem not_top_le_value : ¬ (top : Exact P) ≤ value x := by
  simp [le_iff_extended, extended]

@[simp] theorem not_value_le_bottom : ¬ (value x : Exact P) ≤ bottom := by
  simp [le_iff_extended, extended]

@[simp] theorem not_top_le_bottom : ¬ (top : Exact P) ≤ bottom := by
  simp [le_iff_extended, extended]

/-- What is between elements is an element. -/
theorem exists_eq_value {a : Exact P} (h1 : value x ≤ a) (h2 : a ≤ value y) :
    ∃ z, a = value z := by
  cases a with
  | bottom => simp at h1
  | value z => exact ⟨z, rfl⟩
  | top => simp at h2

@[simp] theorem abs_value : Scalar.abs (value x : Exact P) = value |x| := by
  have hmono : Monotone (value : K → Exact P) := fun a b h => value_le_value.2 h
  exact hmono.map_max.symm

/-! ## Real numbers -/

/-- The real numbers, with their square root. -/
noncomputable def Params.real (epsilon minPositive : ℝ) (h : 0 < minPositive) : Params ℝ :=
  ⟨Real.sqrt, epsilon, minPositive, h⟩

@[simp] theorem Params.real_sqrt {ε τ : ℝ} {h : 0 < τ} (x : ℝ) :
    (Params.real ε τ h).sqrt x = √x := by rfl

@[simp] theorem Params.real_minPositive {ε τ : ℝ} {h : 0 < τ} :
    (Params.real ε τ h).minPositive = τ := by rfl

end Exact

end HitTest
