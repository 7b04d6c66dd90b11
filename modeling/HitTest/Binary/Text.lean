import HitTest.Binary.Basic
import HitTest.Decimal.Layout

/-!
# The text of a binary number (`Debug`, `Display`)

A number is written by the shortest decimal that rounds to it in its own format. The reals that
round to a number reach from halfway to the number below to halfway to the number above, and the
two halves belong to it when its rank is even.
-/

namespace HitTest

namespace Format

/-- The reals that round to the magnitude of a positive rank, in halves of the scale below it. -/
def neighborhood (f : Format) (rank : Nat) : Neighborhood :=
  let scale := f.scale (rank - 1)
  let below := f.significand (rank - 1)
  let value := f.significand rank <<< (f.scale rank - scale)
  let above := f.significand (rank + 1) <<< (f.scale (rank + 1) - scale)
  let e : Int := scale + f.unitExponent - 1
  let up := e.toNat
  { lower := (below + value) <<< up
    value := (2 * value) <<< up
    upper := (value + above) <<< up
    denominator := 1 <<< (-e).toNat
    closed := rank % 2 = 0 }

/-- The shortest decimal of a finite magnitude. -/
def decimal (f : Format) (rank : Nat) : Decimal :=
  if rank = 0 then ⟨0, 0⟩ else (f.neighborhood rank).shortest

end Format

namespace Binary

variable {f : Format}

/-- The text of a value in a layout. A sign is written for negative numbers, also for zero. -/
def text (l : Layout) : Binary f → String
  | nan => "NaN"
  | number negative rank _ =>
    (if negative then "-" else "") ++ if rank = f.top then "inf" else l.write (f.decimal rank)

instance : ToString (Binary f) := ⟨text .coordinate⟩

end Binary

end HitTest
