import HitTest.Binary.Format

/-!
# Rounding to nearest, ties to even

An exact result is a natural number times a power of two, and rounding takes it to the rank of the
nearest magnitude of a format. A number halfway between two magnitudes goes to the one of even
rank, whose significand is even too. Past the greatest finite magnitude the grid is continued by
one more step, and what rounds to that step or beyond is infinite.

`halfEven_near` and `halfEven_tie` say that cutting off binary digits goes to the nearest natural
number and, halfway, to the even one.
-/

namespace HitTest

/-- `n / 2 ^ k` to the nearest natural number, a half to the even one. The quotient is computed
with one more digit: if that digit is not set the rest is below a half; if it is set, a half can
only be left when the quotient is even and every further digit is zero. -/
def halfEven (n k : Nat) : Nat :=
  match k with
  | 0 => n
  | k + 1 =>
    let t := n >>> k
    let q := t / 2
    if t % 2 = 0 then q else if q % 2 = 1 then q + 1 else if t <<< k = n then q else q + 1

namespace Format

/-- The rank of the magnitude nearest to `n * 2 ^ e` units. What is cut off is all that a full
significand does not hold, and at the least what is below one unit. -/
def rankNearest (f : Format) (n : Nat) (e : Int) : Nat :=
  if n = 0 then 0
  else
    let scale := (n.log2 + e - f.fractionBits).toNat
    let cut := scale - e
    let q := if cut < 0 then n <<< (-cut).toNat else halfEven n cut.toNat
    Nat.min (scale * f.leading + q) f.top

theorem rankNearest_le_top (f : Format) (n : Nat) (e : Int) : f.rankNearest n e ≤ f.top := by
  unfold rankNearest
  split
  · exact Nat.zero_le _
  · exact Nat.min_le_right _ _

end Format

/-- Cutting off digits divides by a power of two. -/
theorem shiftRight_add_mod (n k : Nat) :
    n >>> k * 1 <<< k + n % 1 <<< k = n ∧ n % 1 <<< k < 1 <<< k := by
  rw [Nat.shiftRight_eq_div_pow, Nat.one_shiftLeft]
  exact ⟨Nat.div_add_mod' n _, Nat.mod_lt _ (Nat.two_pow_pos k)⟩

theorem shiftLeft_eq_mul (m k : Nat) : m <<< k = m * 1 <<< k := by
  rw [Nat.one_shiftLeft, Nat.shiftLeft_eq]

/-- The rounded quotient is within half a unit of the exact one. -/
theorem halfEven_near (n k : Nat) :
    2 * halfEven n k <<< k ≤ 2 * n + 1 <<< k ∧ 2 * n ≤ 2 * halfEven n k <<< k + 1 <<< k := by
  cases k with
  | zero => simp only [halfEven, Nat.shiftLeft_zero]; omega
  | succ k =>
    obtain ⟨e, l⟩ := shiftRight_add_mod n k
    have hs (m : Nat) : m <<< (k + 1) = 2 * (m * 1 <<< k) := by
      rw [Nat.shiftLeft_succ, shiftLeft_eq_mul]
    simp only [halfEven, hs, shiftLeft_eq_mul (n >>> k)]
    generalize n >>> k = t at *
    generalize n % 1 <<< k = r at *
    generalize 1 <<< k = p at *
    have ht : t = 2 * (t / 2) + t % 2 := (Nat.div_add_mod t 2).symm
    generalize t / 2 = q at *
    have hq : t * p = 2 * (q * p) + t % 2 * p := by
      rw [ht, Nat.add_mul, Nat.mul_assoc]; simp
    have h1 : (q + 1) * p = q * p + p := Nat.succ_mul q p
    rcases Nat.mod_two_eq_zero_or_one t with m | m <;> rw [m] at hq ⊢
    · rw [if_pos rfl]; omega
    · rw [if_neg (by decide)]
      split
      · omega
      · split <;> omega

/-- A number halfway between two naturals is rounded to the even one. -/
theorem halfEven_tie (q k : Nat) : halfEven ((2 * q + 1) <<< k) (k + 1) % 2 = 0 := by
  have hq : (2 * q + 1) / 2 = q := by omega
  have hm : (2 * q + 1) % 2 = 1 := by omega
  simp only [halfEven, Nat.shiftLeft_shiftRight, hq, hm, if_true]
  rw [if_neg (by decide)]
  split <;> omega

end HitTest
