import HitTest.Decimal.Shortest

/-!
# Writing decimals

A layout decides when a decimal is written with its point in place and when with an exponent, and
whether a whole number keeps a zero behind the point.
-/

namespace HitTest

/-- The decisions about the text of a number. -/
structure Layout where
  /-- Leading digits from this place on, and below `positionalBelow`, are written in place; outside
  of these places an exponent is written. No bounds mean that all are written in place. -/
  positional : Option (Int × Int)
  /-- Whole numbers end in `.0`. -/
  pointZero : Bool

namespace Layout

/-- Coordinates are written in place from `0.0001` to below `10 ^ 16`, otherwise with an exponent,
and always show that they are not integers (`Debug`). -/
def coordinate : Layout := ⟨some (-4, 16), true⟩

/-- Percentages are always written in place, whole ones without a point (`Display`). -/
def percentage : Layout := ⟨none, false⟩

/-- Whether a number whose leading digit is at a place is written in place. -/
def inPlace (l : Layout) (place : Int) : Bool :=
  match l.positional with
  | none => true
  | some (first, last) => decide (first ≤ place) && decide (place < last)

/-- The text of a decimal. -/
def write (l : Layout) (d : Decimal) : String :=
  let digits := Nat.toDigits 10 d.digits
  let place : Int := d.exponent + digits.length - 1
  String.ofList <|
    if l.inPlace place then
      if 0 ≤ d.exponent then
        digits ++ List.replicate d.exponent.toNat '0' ++ if l.pointZero then ['.', '0'] else []
      else if 0 ≤ place then
        digits.take (place.toNat + 1) ++ '.' :: digits.drop (place.toNat + 1)
      else '0' :: '.' :: List.replicate (-place - 1).toNat '0' ++ digits
    else
      digits.take 1 ++ (if digits.length = 1 then [] else '.' :: digits.drop 1) ++
        'e' :: (toString place).toList

end Layout

end HitTest
