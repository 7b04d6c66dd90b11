import HitTest.Binary.Arithmetic

/-!
# Scalars (`BaseFloat`)

Geometry is written once for every kind of scalar: it uses the four operations, square root,
comparison, an infinity, and the two small constants below. The binary numbers of 32 and of 64 bits
are scalars; so is any exact arithmetic that has these operations.

Constants are given as fractions. They are taken to 64 bits first and from there to the scalar.

Here and in what follows the item of the program that a definition or theorem is about is named
after it, in parentheses.
-/

namespace HitTest

/-- What geometry asks of its scalars (`BaseFloat`). -/
class Scalar (S : Type) extends Zero S, One S, Add S, Sub S, Mul S, Div S, Neg S, LT S, LE S,
    Min S, Max S where
  [decidableLT : DecidableLT S]
  [decidableLE : DecidableLE S]
  abs : S → S
  sqrt : S → S
  /-- No scalar is above it; its opposite is the value below all others. -/
  infinity : S
  /-- The relative distance of neighboring scalars. -/
  epsilon : S
  /-- What is not above it in magnitude counts as zero where a quotient would be formed. -/
  minPositive : S
  /-- The scalar nearest to a number of 64 bits. -/
  ofBinary64 : Binary64 → S

attribute [reducible, instance] Scalar.decidableLT Scalar.decidableLE

instance {f : Format} : Scalar (Binary f) where
  abs := Binary.abs
  sqrt := Binary.sqrt
  infinity := Binary.infinity
  epsilon := Binary.epsilon
  minPositive := Binary.minPositive
  ofBinary64 := Binary.convert f

namespace Scalar

variable {S : Type} [Scalar S]

/-- The scalar nearest to `n / d`, by way of 64 bits (`scalar`). -/
def ofFraction (n d : Nat) : S := ofBinary64 (Binary.ofNat n / Binary.ofNat d)

/-- The scalar nearest to a natural number, by way of 64 bits (`scalar`). -/
def ofNat (n : Nat) : S := ofBinary64 (Binary.ofNat n)

/-- One half. -/
def half : S := ofFraction 1 2

/-- Two. -/
def two : S := ofNat 2

/-- Four. -/
def four : S := ofNat 4

/-- A hundred times `epsilon`, the tolerance of comparisons up to roundoff (`tolerance`). -/
def tolerance : S := ofNat 100 * epsilon

end Scalar

end HitTest
