import HitTest.Binary.Basic

/-!
# Arithmetic

Each operation computes the exact result from the significands and scales of its operands and
rounds once. What has no exact result (`∞ - ∞`, `0 * ∞`, `0 / 0`, `∞ / ∞`, the root of a negative
number) is not a number, and a quotient by zero is infinite.
-/

namespace HitTest

namespace Binary

variable {f : Format}

/-- The opposite number. -/
def neg : Binary f → Binary f
  | nan => nan
  | number s a h => number (!s) a h

/-- The magnitude. -/
def abs : Binary f → Binary f
  | nan => nan
  | number _ a h => number false a h

/-- The sum of two finite magnitudes of different signs and one scale, the first with the given
sign. An exact zero is positive. -/
def addOpposite (negative : Bool) (x y : Nat) (scale : Nat) : Binary f :=
  if y < x then nearest negative (x - y) scale
  else if x < y then nearest (!negative) (y - x) scale
  else signedZero false

/-- The sum of two finite magnitudes with signs, brought to the smaller of their scales. -/
def addFinite (s : Bool) (a : Nat) (t : Bool) (b : Nat) : Binary f :=
  let i := f.scale a
  let j := f.scale b
  if i ≤ j then
    let x := f.significand a
    let y := f.significand b <<< (j - i)
    if s = t then nearest s (x + y) i else addOpposite s x y i
  else
    let x := f.significand a <<< (i - j)
    let y := f.significand b
    if s = t then nearest s (x + y) j else addOpposite s x y j

/-- The rounded sum. -/
def add : Binary f → Binary f → Binary f
  | number s a ha, number t b hb =>
    if a = f.top then
      if b = f.top ∧ s ≠ t then nan else number s a ha
    else if b = f.top then number t b hb
    else addFinite s a t b
  | _, _ => nan

/-- The rounded difference. -/
def sub (x y : Binary f) : Binary f := x.add y.neg

/-- The rounded product. -/
def mul : Binary f → Binary f → Binary f
  | number s a _, number t b _ =>
    if a = f.top ∨ b = f.top then
      if a = 0 ∨ b = 0 then nan else signedInfinity (s != t)
    else
      nearest (s != t) (f.significand a * f.significand b)
        (f.scale a + f.scale b + f.unitExponent)
  | _, _ => nan

/-- A natural number with a last binary digit that says whether anything is left over. The digit
stands for any rest between nothing and one: no boundary of a rounding to fewer digits lies in
between. -/
def withRest (q : Nat) (rest : Bool) : Nat := 2 * q + rest.toNat

/-- The quotient of two positive finite magnitudes. The dividend is shifted until the integer
quotient has two digits more than a full significand. -/
def divFinite (negative : Bool) (a b : Nat) : Binary f :=
  let m := f.significand a
  let d := f.significand b
  let up := f.fractionBits + 3 + d.log2 - m.log2
  let n := m <<< up
  nearest negative (withRest (n / d) (n % d ≠ 0))
    (f.scale a - f.scale b - f.unitExponent - up - 1)

/-- The rounded quotient. -/
def div : Binary f → Binary f → Binary f
  | number s a _, number t b _ =>
    if a = f.top then
      if b = f.top then nan else signedInfinity (s != t)
    else if b = f.top then signedZero (s != t)
    else if b = 0 then
      if a = 0 then nan else signedInfinity (s != t)
    else if a = 0 then signedZero (s != t)
    else divFinite (s != t) a b
  | _, _ => nan

/-- The root of a positive finite magnitude. The significand is shifted, by an amount that makes
the exponent even, until the integer root has two digits more than a full significand. -/
def sqrtFinite (a : Nat) : Binary f :=
  let m := f.significand a
  let e : Int := f.scale a + f.unitExponent
  let up := 2 * f.fractionBits + 4 - m.log2
  let up := if (e - up) % 2 = 0 then up else up + 1
  let n := m <<< up
  let q := n.sqrt
  nearest false (withRest q (q * q ≠ n)) ((e - up) / 2 - f.unitExponent - 1)

/-- The rounded square root; the root of a zero is that zero. -/
def sqrt : Binary f → Binary f
  | nan => nan
  | number s a h =>
    if a = 0 then number s a h
    else if s then nan
    else if a = f.top then number s a h
    else sqrtFinite a

/-- The number of another format that is nearest to a number. -/
def convert (g : Format) : Binary f → Binary g
  | nan => nan
  | number s a _ =>
    if a = f.top then signedInfinity s
    else nearest s (f.significand a) (f.scale a + f.unitExponent - g.unitExponent)

instance : Neg (Binary f) := ⟨neg⟩
instance : Add (Binary f) := ⟨add⟩
instance : Sub (Binary f) := ⟨sub⟩
instance : Mul (Binary f) := ⟨mul⟩
instance : Div (Binary f) := ⟨div⟩

end Binary

end HitTest
