/-!
# Binary floating-point formats

A format is given by the widths of its exponent and fraction fields. Its nonnegative numbers,
read in increasing order, are numbered from `0`; this number is the *rank* of a magnitude. Zero has
rank `0`, the least positive number (the *unit* of the format) has rank `1`, and infinity, the last
of them, has rank `top`. The rank is also what the exponent and fraction fields hold, read as one
natural number.

Every finite magnitude is a whole number of units: the magnitude of rank `r` is
`units r = significand r <<< scale r` of them.
-/

namespace HitTest

/-- The two precisions in which everything is computed: 32 and 64 bits. -/
inductive Format where
  | single
  | double
  deriving DecidableEq, Repr

namespace Format

/-- The width of the exponent field. -/
def exponentBits : Format → Nat
  | single => 8
  | double => 11

/-- The width of the fraction field. -/
@[inline] def fractionBits : Format → Nat
  | single => 23
  | double => 52

/-- Sign, exponent and fraction together. -/
def width : Format → Nat
  | single => 32
  | double => 64

/-- The bit above 52 fraction bits. -/
@[noinline] def doubleLeading : Nat := 0x10000000000000

/-- Eleven exponent bits set, over 52 fraction bits that are not. -/
@[noinline] def doubleTop : Nat := 0x7ff0000000000000

/-- What the leading bit of a full significand counts for, and the rank of the least number that
has one. -/
@[inline] def leading : Format → Nat
  | single => 0x800000
  | double => doubleLeading

/-- The rank of infinity: all exponent bits set, no fraction bit. -/
@[inline] def top : Format → Nat
  | single => 0x7f800000
  | double => doubleTop

/-- The unit of the format is `2 ^ unitExponent`. -/
@[inline] def unitExponent : Format → Int
  | single => -149
  | double => -1074

theorem width_eq (f : Format) : f.width = 1 + f.exponentBits + f.fractionBits := by
  cases f <;> rfl

theorem leading_eq (f : Format) : f.leading = 1 <<< f.fractionBits := by cases f <;> rfl

theorem top_eq (f : Format) : f.top = (1 <<< f.exponentBits - 1) * f.leading := by cases f <;> rfl

theorem unitExponent_eq (f : Format) :
    f.unitExponent = 2 - (1 <<< (f.exponentBits - 1) : Nat) - f.fractionBits := by cases f <;> rfl

theorem leading_pos (f : Format) : 0 < f.leading := by cases f <;> decide

theorem leading_le_top (f : Format) : f.leading ≤ f.top := by cases f <;> decide

/-- The significand of the magnitude of a rank: the bare fraction below the least number with a
full significand, from there on the fraction under a leading bit. -/
@[inline] def significand (f : Format) (rank : Nat) : Nat :=
  if rank < f.leading then rank else rank % f.leading + f.leading

/-- How often the significand of a rank is doubled to reach the magnitude in units. -/
@[inline] def scale (f : Format) (rank : Nat) : Nat := rank / f.leading - 1

/-- The magnitude of a rank, in units. -/
def units (f : Format) (rank : Nat) : Nat := f.significand rank <<< f.scale rank

/-- Ranks below the leading bit count units one by one. -/
theorem units_of_lt (f : Format) {rank : Nat} (h : rank < f.leading) : f.units rank = rank := by
  simp [units, significand, scale, h, Nat.div_eq_of_lt h]

end Format

end HitTest
