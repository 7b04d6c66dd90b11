import HitTest.Binary.Rounding

/-!
# Binary floating-point numbers

A number of a format is a sign and the rank of its magnitude; beside the numbers there is one value
that is not a number. Zero and infinity carry signs like every other magnitude. Comparison is
comparison of signed ranks, in which the two zeros coincide, and nothing compares with what is not
a number.
-/

namespace HitTest

/-- A value of a binary format: not a number, or a signed magnitude given by its rank. -/
inductive Binary (f : Format) where
  | nan
  | number (negative : Bool) (rank : Nat) (rank_le : rank ≤ f.top)
  deriving DecidableEq

/-- The numbers of 32 bits (`f32`). -/
abbrev Binary32 := Binary .single

/-- The numbers of 64 bits (`f64`). -/
abbrev Binary64 := Binary .double

namespace Binary

variable {f : Format}

/-- Zero, with a sign. -/
def signedZero (negative : Bool) : Binary f := number negative 0 (Nat.zero_le _)

/-- Infinity, with a sign. -/
def signedInfinity (negative : Bool) : Binary f := number negative f.top (Nat.le_refl _)

/-- The number nearest to `n * 2 ^ e` units, with a sign. -/
def nearest (negative : Bool) (n : Nat) (e : Int) : Binary f :=
  number negative (f.rankNearest n e) (f.rankNearest_le_top n e)

/-- The number nearest to the dyadic fraction `n * 2 ^ e`. -/
def ofDyadic (n : Nat) (e : Int) : Binary f := nearest false n (e - f.unitExponent)

/-- The number nearest to a natural number. -/
def ofNat (n : Nat) : Binary f := ofDyadic n 0

instance : Inhabited (Binary f) := ⟨nan⟩
instance : Zero (Binary f) := ⟨signedZero false⟩
instance : One (Binary f) := ⟨ofNat 1⟩

/-- Positive infinity. -/
def infinity : Binary f := signedInfinity false

/-- The least positive number with a full significand (`min_positive_value`). -/
def minPositive : Binary f := number false f.leading f.leading_le_top

/-- The distance from one to the number above it (`epsilon`). -/
def epsilon : Binary f := ofDyadic 1 (-f.fractionBits)

/-! ## Bits -/

/-- The value of a bit pattern: sign, exponent and fraction from the most significant bit down.
Exponents of all ones with a fraction are not a number. -/
def ofBits (bits : Nat) : Binary f :=
  let rank := bits % 1 <<< (f.width - 1)
  if h : rank ≤ f.top then number (bits.testBit (f.width - 1)) rank h else nan

/-- The bit pattern of a number. -/
def bits? : Binary f → Option Nat
  | nan => none
  | number negative rank _ => some ((if negative then 1 <<< (f.width - 1) else 0) + rank)

/-! ## Comparison -/

/-- Whether a value is a number. -/
def isNumber : Binary f → Bool
  | nan => false
  | number .. => true

/-- The place of a number in the order of its format: its rank, negated below zero. Both zeros are
at `0`. -/
def place : Binary f → Int
  | nan => 0
  | number true rank _ => -rank
  | number false rank _ => rank

/-- Strict order; false if one side is not a number. -/
def lt : Binary f → Binary f → Bool
  | number false a _, number false b _ => decide (a < b)
  | number true a _, number true b _ => decide (b < a)
  | number true a _, number false b _ => decide (a ≠ 0) || decide (b ≠ 0)
  | _, _ => false

/-- Order; false if one side is not a number. -/
def le : Binary f → Binary f → Bool
  | number false a _, number false b _ => decide (a ≤ b)
  | number true a _, number true b _ => decide (b ≤ a)
  | number true _ _, number false _ _ => true
  | number false a _, number true b _ => decide (a = 0) && decide (b = 0)
  | _, _ => false

/-- Numeric equality: the zeros are equal, and what is not a number equals nothing. -/
def eq : Binary f → Binary f → Bool
  | number s a _, number t b _ => decide (a = b) && (decide (a = 0) || s == t)
  | _, _ => false

instance : LT (Binary f) := ⟨fun x y => x.lt y = true⟩
instance : LE (Binary f) := ⟨fun x y => x.le y = true⟩
instance : BEq (Binary f) := ⟨eq⟩
instance : DecidableLT (Binary f) := fun x y => inferInstanceAs (Decidable (x.lt y = true))
instance : DecidableLE (Binary f) := fun x y => inferInstanceAs (Decidable (x.le y = true))

/-- Numbers are in the strict order of their places. -/
theorem lt_iff (x y : Binary f) :
    x < y ↔ x.isNumber = true ∧ y.isNumber = true ∧ x.place < y.place := by
  change x.lt y = true ↔ _
  rcases x with _ | ⟨_ | _, a, ha⟩ <;> rcases y with _ | ⟨_ | _, b, hb⟩ <;>
    simp [lt, isNumber, place] <;> omega

/-- Numbers are in the order of their places. -/
theorem le_iff (x y : Binary f) :
    x ≤ y ↔ x.isNumber = true ∧ y.isNumber = true ∧ x.place ≤ y.place := by
  change x.le y = true ↔ _
  rcases x with _ | ⟨_ | _, a, ha⟩ <;> rcases y with _ | ⟨_ | _, b, hb⟩ <;>
    simp [le, isNumber, place] <;> omega

/-- Numbers are equal when they have the same place. -/
theorem eq_iff (x y : Binary f) :
    x.eq y = true ↔ x.isNumber = true ∧ y.isNumber = true ∧ x.place = y.place := by
  rcases x with _ | ⟨_ | _, a, ha⟩ <;> rcases y with _ | ⟨_ | _, b, hb⟩ <;>
    simp [eq, isNumber, place] <;> omega

/-- The lesser number; what is not a number gives way to the other argument. -/
def min : Binary f → Binary f → Binary f
  | nan, y => y
  | x, nan => x
  | x, y => if y < x then y else x

/-- The greater number; what is not a number gives way to the other argument. -/
def max : Binary f → Binary f → Binary f
  | nan, y => y
  | x, nan => x
  | x, y => if x < y then y else x

instance : Min (Binary f) := ⟨min⟩
instance : Max (Binary f) := ⟨max⟩

end Binary

end HitTest
