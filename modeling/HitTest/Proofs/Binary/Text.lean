import HitTest.Binary.Text
import HitTest.Proofs.Binary.Nearest
import HitTest.Proofs.Decimal.Layout

/-!
# The text of a number tells it

The neighborhood of a rank is what is rounded to it, so the decimal that is found there is rounded
to no other rank, and whoever can read the text can tell the number to the last bit.
-/

namespace HitTest

namespace Format

variable {f : Format} {rank : Nat}

/-! ## The neighborhood of a rank -/

theorem scale_mono (f : Format) : Monotone f.scale := fun _ _ h =>
  Nat.sub_le_sub_right (Nat.div_le_div_right h) 1

/-- A significand on a finer scale. -/
theorem shiftLeft_significand (f : Format) {r s : Nat} (h : s ≤ f.scale r) :
    ((f.significand r <<< (f.scale r - s) : Nat) : ℚ) * 2 ^ s = f.units r := by
  rw [units_eq, Nat.shiftLeft_eq]
  push_cast
  rw [mul_assoc, ← pow_add, Nat.sub_add_cancel h]

/-- Halves of a scale, over the denominator of a neighborhood. -/
theorem shiftLeft_div_shiftLeft (f : Format) (n s : Nat) :
    ((n <<< ((s : Int) + f.unitExponent - 1).toNat : Nat) : ℚ) /
      (1 <<< (-((s : Int) + f.unitExponent - 1)).toNat : Nat) = n * 2 ^ s * f.unit / 2 := by
  have hpow : (2 : ℚ) ^ s * f.unit / 2 = 2 ^ ((s : Int) + f.unitExponent - 1) := by
    rw [unit, ← zpow_natCast, ← zpow_add₀ two_ne_zero, zpow_sub_one₀ two_ne_zero, div_eq_mul_inv]
  rw [Nat.shiftLeft_eq, Nat.one_shiftLeft, mul_assoc, mul_div_assoc, hpow]
  push_cast
  generalize (s : Int) + f.unitExponent - 1 = e
  rw [mul_div_assoc, ← zpow_natCast, ← zpow_natCast, ← zpow_sub₀ two_ne_zero]
  congr 2
  omega

/-- The neighborhood of a rank is around its number and reaches to both midpoints. -/
theorem neighborhood_ends (f : Format) (rank : Nat) :
    ((f.neighborhood (rank + 1)).lower / (f.neighborhood (rank + 1)).denominator : ℚ) =
      f.midpoint rank ∧
    ((f.neighborhood (rank + 1)).value / (f.neighborhood (rank + 1)).denominator : ℚ) =
      f.valueAt (rank + 1 : Nat) ∧
    ((f.neighborhood (rank + 1)).upper / (f.neighborhood (rank + 1)).denominator : ℚ) =
      f.midpoint (rank + 1 : Nat) := by
  have hbelow : (f.significand rank : ℚ) * 2 ^ f.scale rank = f.units rank := by
    exact_mod_cast (f.units_eq rank).symm
  have hvalue := f.shiftLeft_significand (f.scale_mono (Nat.le_succ rank))
  have habove := f.shiftLeft_significand (f.scale_mono (by omega : rank ≤ rank + 1 + 1))
  have hmid : ∀ r : Nat, f.midpoint r = (f.units r + f.units (r + 1)) * f.unit / 2 := by
    intro r
    have e := f.valueAt_natCast (r + 1)
    rw [Nat.cast_succ] at e
    rw [midpoint, e, valueAt_natCast]
    ring
  unfold neighborhood
  dsimp only
  rw [Nat.add_sub_cancel, shiftLeft_div_shiftLeft, shiftLeft_div_shiftLeft,
    shiftLeft_div_shiftLeft, hmid, hmid, valueAt_natCast, ← hbelow, ← hvalue, ← habove]
  push_cast
  refine ⟨?_, ?_, ?_⟩ <;> ring

theorem neighborhood_closed (f : Format) (rank : Nat) :
    (f.neighborhood rank).closed = true ↔ Even (rank : Int) := by
  rw [Int.even_coe_nat, Nat.even_iff]
  exact decide_eq_true_iff

/-- What is in the neighborhood of a rank is rounded to it. -/
theorem nearest_of_holds {x : ℚ} (hrank : rank + 1 < f.top)
    (h : (f.neighborhood (rank + 1)).Holds x) : f.Nearest x (rank + 1 : Nat) := by
  obtain ⟨elower, -, eupper⟩ := f.neighborhood_ends rank
  have hlower := h.lower
  have hupper := h.upper
  rw [elower, neighborhood_closed] at hlower
  rw [eupper, neighborhood_closed] at hupper
  refine ⟨?_, fun _ => ?_, fun _ => hupper⟩
  · rw [Nat.abs_cast]
    exact_mod_cast hrank.le
  · rwa [Nat.cast_succ, add_sub_cancel_right, ← Nat.cast_succ]

/-- The gap below a number is no smaller than its share of a full significand. -/
theorem valueAt_le_gap (f : Format) (rank : Nat) :
    f.valueAt (rank + 1 : Nat) ≤ 2 ^ 54 * (f.valueAt (rank + 1 : Nat) - f.midpoint rank) := by
  have hsignificand : (f.significand rank : ℚ) + 1 ≤ 2 ^ 53 := by
    have hlt := f.significand_lt rank
    have hleading : 2 * f.leading ≤ 2 ^ 53 := by cases f <;> decide
    exact_mod_cast (by omega : f.significand rank + 1 ≤ 2 ^ 53)
  have hstep : (0 : ℚ) < 2 ^ f.scale rank * f.unit := mul_pos (by positivity) f.unit_pos
  rw [valueAt_natCast, midpoint_natCast, units_succ, units_eq]
  push_cast
  nlinarith

theorem neighborhood_denominator (f : Format) (rank : Nat) :
    ∃ k ≤ 1075, (f.neighborhood rank).denominator = 2 ^ k := by
  refine ⟨(-((f.scale (rank - 1) : Int) + f.unitExponent - 1)).toNat, ?_, Nat.one_shiftLeft _⟩
  cases f <;> simp only [unitExponent] <;> omega

/-- The decimal of a finite rank is rounded to that rank. -/
theorem nearest_decimal (hrank : rank < f.top) : f.Nearest (f.decimal rank).value rank := by
  cases rank with
  | zero =>
    rw [show (f.decimal 0).value = 0 by simp [decimal, Decimal.value]]
    exact Nearest.zero
  | succ rank =>
    obtain ⟨elower, evalue, eupper⟩ := f.neighborhood_ends rank
    obtain ⟨k, hk, ed⟩ := f.neighborhood_denominator (rank + 1)
    have hd : (0 : ℚ) < (f.neighborhood (rank + 1)).denominator := by
      rw [ed]
      positivity
    have hvalue : (0 : ℚ) < (f.neighborhood (rank + 1)).value := by
      rw [← div_pos_iff_of_pos_right hd, evalue, ← f.valueAt_zero]
      exact f.valueAt_strictMono (by omega)
    have hupper : ((f.neighborhood (rank + 1)).value : ℚ) < (f.neighborhood (rank + 1)).upper := by
      rw [← div_lt_div_iff_of_pos_right hd, evalue, eupper]
      exact f.valueAt_lt_midpoint _
    refine nearest_of_holds hrank ?_
    rw [decimal, if_neg (Nat.succ_ne_zero rank)]
    refine Neighborhood.holds_shortest (by exact_mod_cast hd) ?_ (by exact_mod_cast hvalue)
      (by exact_mod_cast hupper) ?_
    · rw [ed, Nat.log2_two_pow]
      omega
    · rw [evalue, elower]
      exact f.valueAt_le_gap rank

end Format

/-! ## Reading a number -/

namespace Binary

variable {f : Format} {x y : Binary f} {l : Layout}

/-- The text of a magnitude. -/
theorem toList_text (l : Layout) (s : Bool) (r : Nat) (h : r ≤ f.top) :
    ((number s r h : Binary f).text l).toList =
      (if s then ['-'] else []) ++
        (if r = f.top then "inf" else l.write (f.decimal r)).toList := by
  rw [text, String.toList_append]
  cases s <;> rfl

/-- No magnitude is written with a sign, and only infinity without a digit at first. -/
theorem exists_toList_magnitude (l : Layout) (f : Format) (r : Nat) :
    ∃ c cs, (if r = f.top then "inf" else l.write (f.decimal r)).toList = c :: cs ∧ c ≠ '-' ∧
      (c.isDigit = true ↔ r ≠ f.top) := by
  split
  · rename_i htop
    exact ⟨'i', ['n', 'f'], rfl, by decide, by simp [htop]⟩
  · rename_i htop
    obtain ⟨c, cs, e, hc⟩ := l.exists_toList_write (f.decimal r)
    refine ⟨c, cs, e, ?_, by simp [htop, hc]⟩
    rintro rfl
    exact absurd hc (by decide)

/-- Magnitudes are told by their texts. -/
theorem rank_eq_of_text_eq {r r' : Nat} (h : r ≤ f.top) (h' : r' ≤ f.top)
    (e : (if r = f.top then "inf" else l.write (f.decimal r)).toList =
      (if r' = f.top then "inf" else l.write (f.decimal r')).toList) : r = r' := by
  obtain ⟨c, cs, ec, -, hc⟩ := exists_toList_magnitude l f r
  obtain ⟨c', cs', ec', -, hc'⟩ := exists_toList_magnitude l f r'
  obtain ⟨rfl, -⟩ := List.cons_eq_cons.1 (ec.symm.trans (e.trans ec'))
  by_cases htop : r = f.top
  · by_contra hne
    exact hc.1 (hc'.2 fun htop' => hne (htop.trans htop'.symm)) htop
  · have htop' : r' ≠ f.top := hc'.1 (hc.2 htop)
    rw [if_neg htop, if_neg htop'] at e
    have hvalue : (f.decimal r).value = (f.decimal r').value := by
      rw [← l.readNumber_write, ← l.readNumber_write, e]
    have hnearest := Format.nearest_decimal (lt_of_le_of_ne h htop)
    rw [hvalue] at hnearest
    exact_mod_cast hnearest.unique (Format.nearest_decimal (lt_of_le_of_ne h' htop'))

/-- Numbers are told by their texts, also the two zeros. -/
theorem eq_of_text_eq (hx : x.isNumber = true) (hy : y.isNumber = true)
    (e : x.text l = y.text l) : x = y := by
  cases x with
  | nan => cases hx
  | number s r h =>
    cases y with
    | nan => cases hy
    | number s' r' h' =>
      replace e := congrArg String.toList e
      rw [toList_text, toList_text] at e
      obtain ⟨c, cs, ec, hc, -⟩ := exists_toList_magnitude l f r
      obtain ⟨c', cs', ec', hc', -⟩ := exists_toList_magnitude l f r'
      have hsign : s = s' := by
        rw [ec, ec'] at e
        cases s <;> cases s'
        · rfl
        · exact absurd (List.cons_eq_cons.1 e).1 hc
        · exact absurd (List.cons_eq_cons.1 e).1.symm hc'
        · rfl
      subst hsign
      obtain rfl := rank_eq_of_text_eq h h' (List.append_cancel_left e)
      rfl

/-- What stands between the numbers of a configuration is not in their texts. -/
theorem not_mem_text (l : Layout) (x : Binary f) :
    ∀ c ∈ [',', '[', ']', ' ', '\n'], c ∉ (x.text l).toList := by
  intro c hc
  obtain ⟨hdigit, hmarks, hnan, hinf⟩ : c.isDigit = false ∧ c ∉ ['.', 'e', '-'] ∧
      c ∉ ['N', 'a', 'N'] ∧ c ∉ ['i', 'n', 'f'] := by
    simp only [List.mem_cons, List.not_mem_nil, or_false] at hc
    rcases hc with rfl | rfl | rfl | rfl | rfl <;> decide
  have enan : "NaN".toList = ['N', 'a', 'N'] := rfl
  have einf : "inf".toList = ['i', 'n', 'f'] := rfl
  cases x with
  | nan => rwa [text, enan]
  | number s r h =>
    rw [toList_text, List.mem_append, not_or]
    constructor
    · cases s
      · exact List.not_mem_nil
      · exact fun hmem => hmarks (List.mem_cons_of_mem _ (List.mem_cons_of_mem _ hmem))
    · split
      · rwa [einf]
      · intro hmem
        rcases l.forall_mem_write _ c hmem with h | h
        · exact Bool.noConfusion (h.symm.trans hdigit)
        · exact hmarks h

end Binary

end HitTest
