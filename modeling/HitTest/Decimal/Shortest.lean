/-!
# The fewest digits that tell a number apart

A number that is stored with limited precision stands for all reals that round to it. Among the
decimals in that neighborhood the shortest are chosen, and of these the nearest to the number
itself; of two that are equally near, the greater. Everything is computed on natural numbers over a
common denominator.
-/

namespace HitTest

/-- The decimal number `digits * 10 ^ exponent`. -/
structure Decimal where
  digits : Nat
  exponent : Int
  deriving DecidableEq, Repr

/-- The reals that a positive number stands for: those from `lower` to `upper` over the
denominator, with the two ends themselves if it is closed. -/
structure Neighborhood where
  lower : Nat
  value : Nat
  upper : Nat
  denominator : Nat
  closed : Bool

namespace Decimal

/-- Ten to a power. -/
def tenPow (n : Nat) : Nat := Nat.pow 10 n

/-- Whether `n / d` is at least `10 ^ place`. -/
def reaches (n d : Nat) (place : Int) : Bool :=
  decide (d * tenPow place.toNat ≤ n * tenPow (-place).toNat)

/-- The place of the leading digit of a positive quotient: the greatest power of ten that it
reaches. A digit is worth a little more than `3.3219` bits, and the estimate made from the binary
logarithms is at most one place off. -/
def leadingPlace (n d : Nat) : Int :=
  let estimate := ((n.log2 : Int) - d.log2) * 1233 / 4096
  if reaches n d (estimate + 1) then estimate + 1
  else if reaches n d estimate then estimate
  else estimate - 1

end Decimal

namespace Neighborhood

open Decimal (tenPow)

/-- Whether the decimal with the given digits from a place upward is in the neighborhood. -/
def contains (h : Neighborhood) (digits : Nat) (place : Int) : Bool :=
  let x := digits * h.denominator * tenPow place.toNat
  let lower := h.lower * tenPow (-place).toNat
  let upper := h.upper * tenPow (-place).toNat
  if h.closed then decide (lower ≤ x) && decide (x ≤ upper)
  else decide (lower < x) && decide (x < upper)

/-- The best decimal that ends at a place: of the two next to the value the one in the neighborhood,
and if both are, the nearer one, a tie going up. -/
def decimalAt? (h : Neighborhood) (place : Int) : Option Decimal :=
  let n := h.value * tenPow (-place).toNat
  let d := h.denominator * tenPow place.toNat
  let q := n / d
  match h.contains q place, h.contains (q + 1) place with
  | true, true => some ⟨if 2 * n < (2 * q + 1) * d then q else q + 1, place⟩
  | true, false => some ⟨q, place⟩
  | false, true => some ⟨q + 1, place⟩
  | false, false => none

/-- The first of `count` places, going down from `place`, at which a decimal is in the
neighborhood, with that decimal; the value cut off there if none is. -/
def search (h : Neighborhood) : (count : Nat) → (place : Int) → Decimal
  | 0, place =>
    ⟨h.value * tenPow (-place).toNat / (h.denominator * tenPow place.toNat), place⟩
  | count + 1, place =>
    match h.decimalAt? place with
    | some d => d
    | none => search h count (place - 1)

/-- The shortest decimal in the neighborhood. The search starts one place above the leading digit,
where a power of ten just above the value would be, and seventeen digits are always enough for a
number of 64 bits. -/
def shortest (h : Neighborhood) : Decimal :=
  h.search 20 (Decimal.leadingPlace h.value h.denominator + 1)

end Neighborhood

end HitTest
