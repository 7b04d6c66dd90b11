import HitTest.Decimal.Layout
import HitTest.Proofs.Decimal.Shortest
import Mathlib.Data.List.TakeWhile

/-!
# Reading what was written

In whatever layout a decimal is written, its text can be read as the number that the decimal stands
for. Digits are read with no regard to the point between them, which then says how often ten has to
be divided out.
-/

namespace HitTest

/-! ## Texts in two parts -/

section Parts

variable {c : Char} {l r : List Char}

theorem all_ne_of_not_mem (h : c ∉ l) : ∀ x ∈ l, decide (x ≠ c) = true :=
  fun _ hx => decide_eq_true fun e => h (e ▸ hx)

/-- What is before a character that occurs for the first time. -/
theorem takeWhile_append_cons (h : c ∉ l) : (l ++ c :: r).takeWhile (· ≠ c) = l := by
  rw [List.takeWhile_append_of_pos (all_ne_of_not_mem h), List.takeWhile_cons_of_neg (by simp),
    List.append_nil]

/-- What begins with a character that occurs for the first time. -/
theorem dropWhile_append_cons (h : c ∉ l) : (l ++ c :: r).dropWhile (· ≠ c) = c :: r := by
  rw [List.dropWhile_append_of_pos (all_ne_of_not_mem h), List.dropWhile_cons_of_neg (by simp)]

theorem takeWhile_of_not_mem (h : c ∉ l) : l.takeWhile (· ≠ c) = l :=
  List.takeWhile_eq_self_iff.2 (all_ne_of_not_mem h)

theorem dropWhile_of_not_mem (h : c ∉ l) : l.dropWhile (· ≠ c) = [] :=
  List.dropWhile_eq_nil_iff.2 (all_ne_of_not_mem h)

end Parts

/-! ## Reading -/

/-- A whole number, with or without a sign. -/
def readInt : List Char → Int
  | '-' :: cs => -(Nat.ofDigitChars 10 cs 0 : Nat)
  | cs => (Nat.ofDigitChars 10 cs 0 : Nat)

/-- The number that digits around a point stand for. -/
def readPositional (cs : List Char) : ℚ :=
  let whole := cs.takeWhile (· ≠ '.')
  let fraction := (cs.dropWhile (· ≠ '.')).drop 1
  (Nat.ofDigitChars 10 (whole ++ fraction) 0 : Nat) * 10 ^ (-fraction.length : Int)

/-- The number that is written in place or with an exponent. -/
def readNumber (cs : List Char) : ℚ :=
  readPositional (cs.takeWhile (· ≠ 'e')) * 10 ^ readInt ((cs.dropWhile (· ≠ 'e')).drop 1)

section Reading

variable {whole fraction m e : List Char}

theorem readPositional_point (h : '.' ∉ whole) : readPositional (whole ++ '.' :: fraction) =
    (Nat.ofDigitChars 10 (whole ++ fraction) 0 : Nat) * 10 ^ (-fraction.length : Int) := by
  rw [readPositional, takeWhile_append_cons h, dropWhile_append_cons h]
  rfl

theorem readPositional_whole (h : '.' ∉ whole) :
    readPositional whole = (Nat.ofDigitChars 10 whole 0 : Nat) := by
  rw [readPositional, takeWhile_of_not_mem h, dropWhile_of_not_mem h]
  simp

theorem readNumber_exponent (h : 'e' ∉ m) :
    readNumber (m ++ 'e' :: e) = readPositional m * 10 ^ readInt e := by
  rw [readNumber, takeWhile_append_cons h, dropWhile_append_cons h]
  rfl

theorem readNumber_plain (h : 'e' ∉ m) : readNumber m = readPositional m := by
  rw [readNumber, takeWhile_of_not_mem h, dropWhile_of_not_mem h]
  simp [readInt]

end Reading

/-! ## Digits -/

theorem isDigit_of_mem_digits {n : Nat} {c : Char} (h : c ∈ Nat.toDigits 10 n) : c.isDigit = true :=
  Nat.isDigit_of_mem_toDigits (by decide) (by decide) h

theorem not_mem_digits {n : Nat} {c : Char} (hc : c.isDigit = false) : c ∉ Nat.toDigits 10 n :=
  fun h => Bool.false_ne_true (hc.symm.trans (isDigit_of_mem_digits h))

theorem toList_toString_int (n : Int) : (toString n).toList =
    if 0 ≤ n then Nat.toDigits 10 n.toNat else '-' :: Nat.toDigits 10 (-n).toNat := by
  cases n with
  | ofNat n => exact Nat.toList_repr.trans (if_pos (Int.natCast_nonneg n)).symm
  | negSucc n =>
    rw [if_neg (by omega)]
    change ("-" ++ (n + 1).repr).toList = _
    rw [String.toList_append, Nat.toList_repr]
    rfl

theorem readInt_toString (n : Int) : readInt (toString n).toList = n := by
  rw [toList_toString_int]
  split
  · rename_i h
    have hread : ∀ cs : List Char, '-' ∉ cs → readInt cs = (Nat.ofDigitChars 10 cs 0 : Nat) := by
      intro cs hcs
      unfold readInt
      split
      · simp at hcs
      · rfl
    rw [hread _ (not_mem_digits (by decide)), Nat.ofDigitChars_ten_toDigits]
    exact Int.toNat_of_nonneg h
  · rw [readInt, Nat.ofDigitChars_ten_toDigits]
    omega

section Shapes

variable (n : Nat) {c : Char}

theorem not_mem_digits_zeros (hc : c.isDigit = false) (k : Nat) :
    c ∉ Nat.toDigits 10 n ++ List.replicate k '0' := by
  rw [List.mem_append, not_or, List.mem_replicate]
  refine ⟨not_mem_digits hc, ?_⟩
  rintro ⟨-, rfl⟩
  exact Bool.noConfusion hc

theorem ofDigitChars_digits_zeros (k : Nat) :
    Nat.ofDigitChars 10 (Nat.toDigits 10 n ++ List.replicate k '0') 0 = n * 10 ^ k := by
  rw [Nat.ofDigitChars_append, Nat.ofDigitChars_ten_toDigits, Nat.ofDigitChars_replicate_zero,
    Nat.mul_comm]

/-- Digits and zeros behind them. -/
theorem readNumber_digits_zeros (k : Nat) :
    readNumber (Nat.toDigits 10 n ++ List.replicate k '0') = n * 10 ^ k := by
  rw [readNumber_plain (not_mem_digits_zeros n (by decide) k),
    readPositional_whole (not_mem_digits_zeros n (by decide) k), ofDigitChars_digits_zeros]
  push_cast
  rfl

/-- Digits and zeros behind them, and a zero behind the point. -/
theorem readNumber_point_zero (k : Nat) :
    readNumber (Nat.toDigits 10 n ++ List.replicate k '0' ++ ['.', '0']) = n * 10 ^ k := by
  have he : 'e' ∉ Nat.toDigits 10 n ++ List.replicate k '0' ++ ['.', '0'] := by
    rw [List.mem_append, not_or]
    exact ⟨not_mem_digits_zeros n (by decide) k, by decide⟩
  have hzero : Nat.ofDigitChars 10 ['0'] (n * 10 ^ k) = 10 * (n * 10 ^ k) := rfl
  rw [readNumber_plain he, readPositional_point (not_mem_digits_zeros n (by decide) k),
    Nat.ofDigitChars_append, ofDigitChars_digits_zeros, hzero, List.length_singleton]
  push_cast
  rw [zpow_neg_one]
  ring

theorem not_mem_digits_point (hc : c.isDigit = false) (hpoint : c ≠ '.') (i : Nat) :
    c ∉ (Nat.toDigits 10 n).take i ++ '.' :: (Nat.toDigits 10 n).drop i := by
  rw [List.mem_append, List.mem_cons, not_or, not_or]
  exact ⟨fun h => not_mem_digits hc (List.mem_of_mem_take h), hpoint,
    fun h => not_mem_digits hc (List.mem_of_mem_drop h)⟩

theorem readPositional_digits (i : Nat) :
    readPositional ((Nat.toDigits 10 n).take i ++ '.' :: (Nat.toDigits 10 n).drop i) =
      n * 10 ^ (-((Nat.toDigits 10 n).length - i : Nat) : Int) := by
  rw [readPositional_point fun h => not_mem_digits (by decide) (List.mem_of_mem_take h),
    List.take_append_drop, Nat.ofDigitChars_ten_toDigits, List.length_drop]

/-- Digits on both sides of the point. -/
theorem readNumber_digits (i : Nat) :
    readNumber ((Nat.toDigits 10 n).take i ++ '.' :: (Nat.toDigits 10 n).drop i) =
      n * 10 ^ (-((Nat.toDigits 10 n).length - i : Nat) : Int) := by
  rw [readNumber_plain (not_mem_digits_point n (by decide) (by decide) i), readPositional_digits]

/-- Zeros behind the point before any other digits. -/
theorem readNumber_zeros_digits (k : Nat) :
    readNumber ('0' :: '.' :: List.replicate k '0' ++ Nat.toDigits 10 n) =
      n * 10 ^ (-(k + (Nat.toDigits 10 n).length : Nat) : Int) := by
  have htext : '0' :: '.' :: List.replicate k '0' ++ Nat.toDigits 10 n =
      ['0'] ++ '.' :: (List.replicate k '0' ++ Nat.toDigits 10 n) := rfl
  have he : 'e' ∉ '0' :: '.' :: List.replicate k '0' ++ Nat.toDigits 10 n := by
    rw [List.mem_append, List.mem_cons, List.mem_cons, List.mem_replicate]
    rintro ((h | h | ⟨-, h⟩) | h)
    iterate 3 exact absurd h (by decide)
    exact not_mem_digits (by decide) h
  have hzero : Nat.ofDigitChars 10 ['0'] 0 = 0 := rfl
  rw [readNumber_plain he, htext, readPositional_point (by decide), Nat.ofDigitChars_append,
    Nat.ofDigitChars_append, hzero, Nat.ofDigitChars_replicate_zero, Nat.mul_zero,
    Nat.ofDigitChars_ten_toDigits, List.length_append, List.length_replicate]

/-- One digit before the point, all others behind it, and an exponent. -/
theorem readNumber_digits_exponent (e : Int) :
    readNumber ((Nat.toDigits 10 n).take 1 ++ (if (Nat.toDigits 10 n).length = 1 then [] else
      '.' :: (Nat.toDigits 10 n).drop 1) ++ 'e' :: (toString e).toList) =
        n * 10 ^ (-((Nat.toDigits 10 n).length - 1 : Nat) : Int) * 10 ^ e := by
  split
  · rename_i hlength
    have htake : (Nat.toDigits 10 n).take 1 = Nat.toDigits 10 n :=
      List.take_of_length_le hlength.le
    rw [List.append_nil, htake, readNumber_exponent (not_mem_digits (by decide)),
      readPositional_whole (not_mem_digits (by decide)), Nat.ofDigitChars_ten_toDigits,
      readInt_toString, hlength]
    simp
  · rw [readNumber_exponent (not_mem_digits_point n (by decide) (by decide) 1),
      readPositional_digits, readInt_toString]

end Shapes

/-! ## Layouts -/

namespace Layout

theorem toList_write (l : Layout) (d : Decimal) : (l.write d).toList =
    let digits := Nat.toDigits 10 d.digits
    let place : Int := d.exponent + digits.length - 1
    if l.inPlace place then
      if 0 ≤ d.exponent then
        digits ++ List.replicate d.exponent.toNat '0' ++ if l.pointZero then ['.', '0'] else []
      else if 0 ≤ place then
        digits.take (place.toNat + 1) ++ '.' :: digits.drop (place.toNat + 1)
      else '0' :: '.' :: List.replicate (-place - 1).toNat '0' ++ digits
    else
      digits.take 1 ++ (if digits.length = 1 then [] else '.' :: digits.drop 1) ++
        'e' :: (toString place).toList := String.toList_ofList

/-- What is written is read as what the decimal stands for. -/
theorem readNumber_write (l : Layout) (d : Decimal) : readNumber (l.write d).toList = d.value := by
  have hlength : 0 < (Nat.toDigits 10 d.digits).length := Nat.length_toDigits_pos
  rw [toList_write, Decimal.value]
  dsimp only
  split
  · split
    · rename_i hexponent
      have hpow : (10 : ℚ) ^ d.exponent.toNat = 10 ^ d.exponent := by
        rw [← zpow_natCast, Int.toNat_of_nonneg hexponent]
      split
      · rw [readNumber_point_zero, hpow]
      · rw [List.append_nil, readNumber_digits_zeros, hpow]
    · split
      · rw [readNumber_digits]
        congr 2
        omega
      · rw [readNumber_zeros_digits]
        congr 2
        omega
  · rw [readNumber_digits_exponent, mul_assoc, ← zpow_add₀ (by norm_num)]
    congr 2
    omega

/-- Nothing but digits, a point, signs and the mark of an exponent are written. -/
theorem forall_mem_write (l : Layout) (d : Decimal) :
    ∀ c ∈ (l.write d).toList, c.isDigit = true ∨ c ∈ ['.', 'e', '-'] := by
  have hdigits : ∀ n : Nat, ∀ c ∈ Nat.toDigits 10 n, c.isDigit = true ∨ c ∈ ['.', 'e', '-'] :=
    fun _ _ hc => .inl (isDigit_of_mem_digits hc)
  have hzeros : ∀ k : Nat, ∀ c ∈ List.replicate k '0', c.isDigit = true ∨ c ∈ ['.', 'e', '-'] :=
    fun _ _ hc => .inl (List.eq_of_mem_replicate hc ▸ rfl)
  have hint : ∀ n : Int, ∀ c ∈ (toString n).toList, c.isDigit = true ∨ c ∈ ['.', 'e', '-'] := by
    intro n
    rw [toList_toString_int]
    split
    · exact hdigits _
    · exact List.forall_mem_cons.2 ⟨.inr (by decide), hdigits _⟩
  have htake : ∀ i n : Nat, ∀ c ∈ (Nat.toDigits 10 n).take i, _ :=
    fun _ n c hc => hdigits n c (List.mem_of_mem_take hc)
  have hdrop : ∀ i n : Nat, ∀ c ∈ (Nat.toDigits 10 n).drop i, _ :=
    fun _ n c hc => hdigits n c (List.mem_of_mem_drop hc)
  rw [toList_write]
  dsimp only
  split
  · split
    · refine List.forall_mem_append.2 ⟨List.forall_mem_append.2 ⟨hdigits _, hzeros _⟩, ?_⟩
      split
      · exact List.forall_mem_cons.2 ⟨.inr (by decide), hzeros 1⟩
      · simp
    · split
      · exact List.forall_mem_append.2
          ⟨htake _ _, List.forall_mem_cons.2 ⟨.inr (by decide), hdrop _ _⟩⟩
      · exact List.forall_mem_append.2 ⟨List.forall_mem_cons.2
          ⟨.inl rfl, List.forall_mem_cons.2 ⟨.inr (by decide), hzeros _⟩⟩, hdigits _⟩
  · refine List.forall_mem_append.2 ⟨List.forall_mem_append.2 ⟨htake _ _, ?_⟩,
      List.forall_mem_cons.2 ⟨.inr (by decide), hint _⟩⟩
    split
    · simp
    · exact List.forall_mem_cons.2 ⟨.inr (by decide), hdrop _ _⟩

/-- What is written begins with a digit. -/
theorem exists_toList_write (l : Layout) (d : Decimal) :
    ∃ c cs, (l.write d).toList = c :: cs ∧ c.isDigit = true := by
  have hne : Nat.toDigits 10 d.digits ≠ [] := Nat.toDigits_ne_nil
  obtain ⟨c, cs, hdigits⟩ := List.exists_cons_of_ne_nil hne
  have hc : c.isDigit = true := isDigit_of_mem_digits (hdigits ▸ List.mem_cons_self)
  rw [toList_write, hdigits]
  dsimp only
  split
  · split
    · exact ⟨c, _, rfl, hc⟩
    · split
      · exact ⟨c, _, rfl, hc⟩
      · exact ⟨'0', _, rfl, rfl⟩
  · exact ⟨c, _, rfl, hc⟩

end Layout

end HitTest
