import HitTest.Proofs.Binary.Multiple
import HitTest.Proofs.Binary.Sign
import HitTest.Proofs.Vec3

/-!
# Rounded operations keep the order

Sums, differences and products are monotone in every argument in which the exact ones are. Between
finite numbers this is a property of rounding. An infinity stays where it is in every result that is
a number, at one end of the order.
-/

namespace HitTest

namespace Binary

variable {f : Format} {x y z x' y' c : Binary f}

/-! ## Numbers in order -/

theorem isNumber_left (h : x ≤ y) : x.isNumber = true := ((le_iff _ _).1 h).1

theorem isNumber_right (h : x ≤ y) : y.isNumber = true := ((le_iff _ _).1 h).2.1

theorem value_le_value (h : x ≤ y) : x.value ≤ y.value :=
  (le_iff_value (isNumber_left h) (isNumber_right h)).1 h

protected theorem le_refl (h : x.isNumber = true) : x ≤ x := (le_iff_value h h).2 le_rfl

protected theorem le_self (h : 0 ≤ x) : x ≤ x := Binary.le_refl (isNumber_right h)

protected theorem le_trans (h : x ≤ y) (h' : y ≤ z) : x ≤ z := by
  rw [le_iff] at *
  exact ⟨h.1, h'.2.1, h.2.2.trans h'.2.2⟩

protected theorem le_of_lt (h : x < y) : x ≤ y := by
  rw [lt_iff] at h
  exact (le_iff _ _).2 ⟨h.1, h.2.1, h.2.2.le⟩

protected theorem lt_of_lt_of_le (h : x < y) (h' : y ≤ z) : x < z := by
  rw [lt_iff] at *
  rw [le_iff] at h'
  exact ⟨h.1, h'.2.1, h.2.2.trans_le h'.2.2⟩

protected theorem lt_of_le_of_lt (h : x ≤ y) (h' : y < z) : x < z := by
  rw [lt_iff] at *
  rw [le_iff] at h
  exact ⟨h.1, h'.2.1, h.2.2.trans_lt h'.2.2⟩

/-- Between numbers, what is not below is above or the same. -/
protected theorem not_lt (hx : x.isNumber = true) (hy : y.isNumber = true) : ¬ x < y ↔ y ≤ x := by
  rw [not_lt_iff_value hx hy, le_iff_value hy hx]

protected theorem not_le (hx : x.isNumber = true) (hy : y.isNumber = true) : ¬ x ≤ y ↔ y < x := by
  rw [le_iff_value hx hy, lt_iff_value hy hx, not_le]

protected theorem le_total (hx : x.isNumber = true) (hy : y.isNumber = true) : x ≤ y ∨ y ≤ x := by
  rw [le_iff_value hx hy, le_iff_value hy hx]
  exact le_total _ _

/-- Numbers that are not below each other are equal up to the sign of a zero. -/
theorem beq_of_le_of_le (h : x ≤ y) (h' : y ≤ x) : (x == y) = true := by
  change x.eq y = true
  rw [le_iff] at h h'
  exact (eq_iff x y).2 ⟨h.1, h.2.1, le_antisymm h.2.2 h'.2.2⟩

protected theorem neg_neg (x : Binary f) : - -x = x := by
  cases x with
  | nan => rfl
  | number s r h => exact congrArg (number · r h) (Bool.not_not s)

protected theorem neg_le_neg_iff : -x ≤ -y ↔ y ≤ x := by
  rw [le_iff, le_iff, isNumber_neg, isNumber_neg, place_neg, place_neg, neg_le_neg_iff]
  tauto

/-! ## Operands

What is not a number stays what it is in every operation, and an infinity is lost only in a result
that is not a number, or as a divisor. -/

@[simp] theorem nan_add (y : Binary f) : nan + y = nan := rfl

@[simp] theorem add_nan (x : Binary f) : x + nan = nan := by cases x <;> rfl

@[simp] theorem sub_nan (x : Binary f) : x - nan = nan := by cases x <;> rfl

@[simp] theorem nan_mul (y : Binary f) : nan * y = nan := rfl

@[simp] theorem mul_nan (x : Binary f) : x * nan = nan := by cases x <;> rfl

@[simp] theorem nan_div (y : Binary f) : nan / y = nan := rfl

@[simp] theorem div_nan (x : Binary f) : x / nan = nan := by cases x <;> rfl

theorem sqrt_nan : (nan : Binary f).sqrt = nan := rfl

/-- Operands of a number are numbers if the operation keeps what is not a number on either side. -/
theorem isNumber_of_strict {op : Binary f → Binary f → Binary f} (hleft : ∀ y, op nan y = nan)
    (hright : ∀ x, op x nan = nan) (h : (op x y).isNumber = true) :
    x.isNumber = true ∧ y.isNumber = true := by
  cases x with
  | nan =>
    rw [hleft] at h
    cases h
  | number s a ha =>
    cases y with
    | nan =>
      rw [hright] at h
      cases h
    | number t b hb => exact ⟨rfl, rfl⟩

theorem isNumber_of_add (h : (x + y).isNumber = true) : x.isNumber = true ∧ y.isNumber = true :=
  isNumber_of_strict nan_add add_nan h

theorem isNumber_of_sub (h : (x - y).isNumber = true) : x.isNumber = true ∧ y.isNumber = true := by
  have hn := isNumber_of_add (x := x) (y := -y) h
  rwa [isNumber_neg] at hn

theorem isNumber_of_mul (h : (x * y).isNumber = true) : x.isNumber = true ∧ y.isNumber = true :=
  isNumber_of_strict nan_mul mul_nan h

theorem isNumber_of_div (h : (x / y).isNumber = true) : x.isNumber = true ∧ y.isNumber = true :=
  isNumber_of_strict nan_div div_nan h

theorem isNumber_of_sqrt (h : x.sqrt.isNumber = true) : x.isNumber = true := by
  cases x with
  | nan => cases h
  | number s a ha => rfl

@[simp] theorem not_nan_le (y : Binary f) : ¬ nan ≤ y := fun h => nomatch isNumber_left h

theorem isFinite_of_mul (h : (x * y).IsFinite) : x.IsFinite ∧ y.IsFinite := by
  obtain ⟨hx, hy⟩ := isNumber_of_mul h.1
  change (x.mul y).IsFinite at h
  cases x with
  | nan => cases hx
  | number s a ha =>
    cases y with
    | nan => cases hy
    | number t b hb =>
      rw [isFinite_number, isFinite_number, ← not_or]
      intro htop
      rw [mul, if_pos htop] at h
      split_ifs at h
      · cases h.1
      · exact isFinite_number.1 h rfl

/-! ## Lesser and greater number -/

protected theorem le_min_iff (hx : x.isNumber = true) (hy : y.isNumber = true) :
    z ≤ Min.min x y ↔ z ≤ x ∧ z ≤ y := by
  by_cases hz : z.isNumber = true
  · rw [le_iff_value hz (isNumber_min hx hy), value_min hx hy, le_iff_value hz hx,
      le_iff_value hz hy, le_min_iff]
  · rw [le_iff, le_iff, le_iff]
    simp [hz]

protected theorem max_le_iff (hx : x.isNumber = true) (hy : y.isNumber = true) :
    Max.max x y ≤ z ↔ x ≤ z ∧ y ≤ z := by
  by_cases hz : z.isNumber = true
  · rw [le_iff_value (isNumber_max hx hy) hz, value_max hx hy, le_iff_value hx hz,
      le_iff_value hy hz, max_le_iff]
  · rw [le_iff, le_iff, le_iff]
    simp [hz]

protected theorem min_le (hx : x.isNumber = true) (hy : y.isNumber = true) :
    Min.min x y ≤ x ∧ Min.min x y ≤ y :=
  (Binary.le_min_iff hx hy).1 (Binary.le_refl (isNumber_min hx hy))

protected theorem le_max (hx : x.isNumber = true) (hy : y.isNumber = true) :
    x ≤ Max.max x y ∧ y ≤ Max.max x y :=
  (Binary.max_le_iff hx hy).1 (Binary.le_refl (isNumber_max hx hy))

protected theorem min_le_min (hx : x ≤ x') (hy : y ≤ y') : Min.min x y ≤ Min.min x' y' := by
  obtain ⟨h1, h2⟩ := Binary.min_le (isNumber_left hx) (isNumber_left hy)
  rw [Binary.le_min_iff (isNumber_right hx) (isNumber_right hy)]
  exact ⟨Binary.le_trans h1 hx, Binary.le_trans h2 hy⟩

protected theorem max_le_max (hx : x ≤ x') (hy : y ≤ y') : Max.max x y ≤ Max.max x' y' := by
  obtain ⟨h1, h2⟩ := Binary.le_max (isNumber_right hx) (isNumber_right hy)
  rw [Binary.max_le_iff (isNumber_left hx) (isNumber_left hy)]
  exact ⟨Binary.le_trans hx h1, Binary.le_trans hy h2⟩

/-- What is not a number gives way on both sides. -/
protected theorem min_le_min_left (h : x ≤ x') (c : Binary f) : Min.min x c ≤ Min.min x' c := by
  cases hn : c.isNumber with
  | false =>
    obtain rfl := eq_nan hn
    rwa [min_nan, min_nan]
  | true => exact Binary.min_le_min h (Binary.le_refl hn)

protected theorem max_le_max_left (h : x ≤ x') (c : Binary f) : Max.max x c ≤ Max.max x' c := by
  cases hn : c.isNumber with
  | false =>
    obtain rfl := eq_nan hn
    rwa [max_nan, max_nan]
  | true => exact Binary.max_le_max h (Binary.le_refl hn)

/-! ## The ends of the order -/

theorem place_signedInfinity (s : Bool) :
    (signedInfinity s : Binary f).place = signFactor s * f.top := place_number ..

theorem le_signedInfinity (h : x.isNumber = true) : x ≤ signedInfinity false :=
  (le_iff _ _).2 ⟨h, rfl, (abs_le.1 x.abs_place_le).2⟩

theorem signedInfinity_le (h : x.isNumber = true) : signedInfinity true ≤ x :=
  (le_iff _ _).2 ⟨rfl, h, (abs_le.1 x.abs_place_le).1⟩

/-- Numbers in order are finite, or one of them is at its end of the order. -/
theorem isFinite_or_infinite_of_le (h : x ≤ y) :
    x.IsFinite ∧ y.IsFinite ∨ x = signedInfinity true ∨ y = signedInfinity false := by
  obtain ⟨hx, hy, hle⟩ := (le_iff _ _).1 h
  by_cases hxf : x.IsFinite
  · by_cases hyf : y.IsFinite
    · exact .inl ⟨hxf, hyf⟩
    · obtain ⟨s, rfl⟩ := exists_eq_signedInfinity hy hyf
      cases s with
      | false => exact .inr (.inr rfl)
      | true =>
        -- nothing but itself is below the least number
        have hlt := (abs_lt.1 hxf.2).1
        have hle : x.place ≤ -f.top := hle
        omega
  · obtain ⟨s, rfl⟩ := exists_eq_signedInfinity hx hxf
    cases s with
    | true => exact .inr (.inl rfl)
    | false =>
      by_cases hyf : y.IsFinite
      · have hlt := (abs_lt.1 hyf.2).2
        have hle : (f.top : Int) ≤ y.place := hle
        omega
      · obtain ⟨t, rfl⟩ := exists_eq_signedInfinity hy hyf
        cases t with
        | false => exact .inr (.inr rfl)
        | true =>
          have hle : (f.top : Int) ≤ -f.top := hle
          have := f.top_pos
          omega

/-- Nothing but infinity itself is as great. -/
theorem eq_infinity_of_le (h : infinity ≤ x) : x = infinity := by
  rcases isFinite_or_infinite_of_le h with ⟨hinf, -⟩ | e | rfl
  · exact absurd rfl (isFinite_number.1 hinf)
  · cases e
  · rfl

theorem eq_neg_infinity_of_le (h : x ≤ -infinity) : x = -infinity := by
  have e : -x = infinity := by
    refine eq_infinity_of_le ?_
    rw [← Binary.neg_neg infinity]
    exact Binary.neg_le_neg_iff.2 h
  rw [← e, Binary.neg_neg]

theorem isFinite_or_infinite_of_nonneg (h : 0 ≤ x) : x.IsFinite ∨ x = signedInfinity false := by
  rcases isFinite_or_infinite_of_le h with ⟨-, hx⟩ | h0 | hx
  · exact .inl hx
  · have htop := f.top_pos
    have hplace := congrArg place h0
    rw [place_zero, place_signedInfinity, signFactor_true] at hplace
    omega
  · exact .inr hx

/-- What is between zero and a finite number is finite. -/
theorem IsFinite.of_nonneg_of_le (hy : y.IsFinite) (h0 : 0 ≤ x) (hxy : x ≤ y) : x.IsFinite := by
  have hlt := (abs_lt.1 hy.2).2
  rw [le_iff, place_zero] at h0
  rw [le_iff] at hxy
  refine ⟨hxy.1, ?_⟩
  rw [abs_of_nonneg h0.2.2]
  omega

theorem not_signedInfinity_nonpos : ¬ (signedInfinity false : Binary f) ≤ 0 := by
  have htop := f.top_pos
  rw [le_iff, place_zero, place_signedInfinity, signFactor_false]
  omega

/-! ## Sums and differences -/

theorem addOpposite_comm (s : Bool) (a b i : Nat) :
    (addOpposite s a b i : Binary f) = addOpposite (!s) b a i := by
  unfold addOpposite
  rcases Nat.lt_trichotomy a b with h | rfl | h
  · simp [h, h.not_gt]
  · simp
  · simp [h, h.not_gt]

theorem addFinite_comm (s : Bool) (a : Nat) (t : Bool) (b : Nat) :
    (addFinite s a t b : Binary f) = addFinite t b s a := by
  have aligned : ∀ x y i : Nat,
      (if s = t then nearest s (x + y) i else addOpposite s x y i : Binary f) =
        if t = s then nearest t (y + x) i else addOpposite t y x i := by
    intro x y i
    by_cases h : s = t
    · rw [if_pos h, if_pos h.symm, h, Nat.add_comm]
    · rw [if_neg h, if_neg (Ne.symm h), addOpposite_comm, Bool.eq_not_of_ne (Ne.symm h)]
  unfold addFinite
  dsimp only
  rcases Nat.lt_trichotomy (f.scale a) (f.scale b) with h | h | h
  · rw [if_pos h.le, if_neg h.not_ge, aligned]
  · rw [if_pos h.le, if_pos h.ge, h, aligned, Nat.sub_self, Nat.shiftLeft_zero, Nat.shiftLeft_zero]
  · rw [if_neg h.not_ge, if_pos h.le, aligned]

protected theorem add_comm (x y : Binary f) : x + y = y + x := by
  change x.add y = y.add x
  cases x with
  | nan => cases y <;> rfl
  | number s a ha =>
    cases y with
    | nan => rfl
    | number t b hb =>
      unfold add
      dsimp only
      split_ifs <;> grind [addFinite_comm]

/-- The magnitude of the sum of different signs does not depend on which of them is which. -/
theorem abs_addOpposite (s t : Bool) (a b i : Nat) :
    (addOpposite s a b i : Binary f).abs = (addOpposite t a b i : Binary f).abs := by
  unfold addOpposite
  split_ifs <;> rfl

theorem abs_addFinite_not (s : Bool) (a : Nat) (t : Bool) (b : Nat) :
    (addFinite (!s) a (!t) b : Binary f).abs = (addFinite s a t b : Binary f).abs := by
  have aligned : ∀ x y i : Nat,
      (if (!s) = !t then nearest (!s) (x + y) i else addOpposite (!s) x y i : Binary f).abs =
        (if s = t then nearest s (x + y) i else addOpposite s x y i : Binary f).abs := by
    intro x y i
    by_cases h : s = t
    · rw [if_pos h, if_pos (congrArg _ h)]
      rfl
    · rw [if_neg h, if_neg (mt Bool.not_inj h)]
      exact abs_addOpposite ..
  unfold addFinite
  dsimp only
  by_cases h : f.scale a ≤ f.scale b
  · rw [if_pos h, if_pos h, aligned]
  · rw [if_neg h, if_neg h, aligned]

/-- The sum of the opposite numbers has the same magnitude. -/
theorem abs_neg_add_neg (x y : Binary f) : (-x + -y).abs = (x + y).abs := by
  change (x.neg.add y.neg).abs = (x.add y).abs
  cases x with
  | nan => rfl
  | number s a ha =>
    cases y with
    | nan => rfl
    | number t b hb =>
      have hne : (!s) ≠ (!t) ↔ s ≠ t := not_congr Bool.not_inj_iff
      simp only [neg, add, hne]
      split_ifs
      · rfl
      · rfl
      · rfl
      · exact abs_addFinite_not ..

/-- A difference has the same magnitude both ways. -/
protected theorem abs_sub_comm (x y : Binary f) : (x - y).abs = (y - x).abs := by
  have h := abs_neg_add_neg y (-x)
  rw [Binary.neg_neg, Binary.add_comm] at h
  exact h

/-- An infinity stays as it is in a sum that is a number. -/
theorem signedInfinity_add {s : Bool} (h : (signedInfinity s + y).isNumber = true) :
    signedInfinity s + y = signedInfinity s := by
  change ((signedInfinity s).add y).isNumber = true at h
  change (signedInfinity s).add y = signedInfinity s
  cases y with
  | nan => cases h
  | number t b hb =>
    simp only [signedInfinity, add, if_true] at h ⊢
    split_ifs at h ⊢
    · cases h
    · rfl

theorem sub_signedInfinity {s : Bool} (h : (x - signedInfinity s).isNumber = true) :
    x - signedInfinity s = signedInfinity (!s) := by
  have e : x - signedInfinity s = signedInfinity (!s) + x := Binary.add_comm _ _
  rw [e] at h ⊢
  exact signedInfinity_add h

theorem signedInfinity_sub_self (s : Bool) :
    (signedInfinity s - signedInfinity s : Binary f) = nan := by
  change (signedInfinity s).add (signedInfinity s).neg = nan
  simp [signedInfinity, add, neg]

/-- A sum or difference with a finite number is a number. -/
theorem IsFinite.isNumber_add (hx : x.IsFinite) (hy : y.isNumber = true) :
    (x + y).isNumber = true := by
  have h := (sub_signs hy hx.neg).1
  change (y + - -x).isNumber = true at h
  rwa [Binary.neg_neg, Binary.add_comm] at h

theorem IsFinite.isNumber_sub (hx : x.IsFinite) (hy : y.isNumber = true) :
    (x - y).isNumber = true := hx.isNumber_add ((isNumber_neg y).trans hy)

protected theorem add_le_add (hx : x ≤ x') (hy : y ≤ y') (h : (x + y).isNumber = true)
    (h' : (x' + y').isNumber = true) : x + y ≤ x' + y' := by
  rcases isFinite_or_infinite_of_le hx with ⟨hxf, hxf'⟩ | rfl | rfl
  · rcases isFinite_or_infinite_of_le hy with ⟨hyf, hyf'⟩ | rfl | rfl
    · rw [le_iff_value h h']
      exact (rounds_add hxf hyf).value_le_value (rounds_add hxf' hyf')
        (add_le_add (value_le_value hx) (value_le_value hy))
    · rw [Binary.add_comm] at h ⊢
      rw [signedInfinity_add h]
      exact signedInfinity_le h'
    · rw [Binary.add_comm x'] at h' ⊢
      rw [signedInfinity_add h']
      exact le_signedInfinity h
  · rw [signedInfinity_add h]
    exact signedInfinity_le h'
  · rw [signedInfinity_add h']
    exact le_signedInfinity h

protected theorem sub_le_sub (hx : x ≤ x') (hy : y' ≤ y) (h : (x - y).isNumber = true)
    (h' : (x' - y').isNumber = true) : x - y ≤ x' - y' :=
  Binary.add_le_add hx (Binary.neg_le_neg_iff.2 hy) h h'

protected theorem add_nonneg (hx : 0 ≤ x) (hy : 0 ≤ y) : 0 ≤ x + y := by
  -- no sum with the infinity above is a sum of opposite infinities
  have absorbs : ∀ {z : Binary f}, 0 ≤ z → signedInfinity false + z = signedInfinity false := by
    intro z hz
    rcases isFinite_or_infinite_of_nonneg hz with hzf | rfl
    · have e := signedInfinity_sub false hzf.neg
      change signedInfinity false + - -z = signedInfinity false at e
      rwa [Binary.neg_neg] at e
    · change (signedInfinity false).add (signedInfinity false) = _
      simp [signedInfinity, add]
  rcases isFinite_or_infinite_of_nonneg hx with hxf | rfl
  · rcases isFinite_or_infinite_of_nonneg hy with hyf | rfl
    · have h := rounds_add hxf hyf
      have hsum := add_nonneg (nonneg_iff.1 hx).2 (nonneg_iff.1 hy).2
      exact nonneg_iff.2 ⟨h.isNumber, h.value_nonneg hsum⟩
    · rw [Binary.add_comm, absorbs hx]
      exact hy
  · rw [absorbs hy]
    exact hx

/-- Sums of what is not below zero are always numbers. -/
protected theorem add_le_add_of_nonneg (hx0 : 0 ≤ x) (hx : x ≤ x') (hy0 : 0 ≤ y) (hy : y ≤ y') :
    0 ≤ x + y ∧ x + y ≤ x' + y' := by
  have h := Binary.add_nonneg hx0 hy0
  have h' := Binary.add_nonneg (Binary.le_trans hx0 hx) (Binary.le_trans hy0 hy)
  exact ⟨h, Binary.add_le_add hx hy (isNumber_right h) (isNumber_right h')⟩

/-- A sum of what is not below zero is not below either part. -/
theorem le_add_of_nonneg (hx : 0 ≤ x) (hy : 0 ≤ y) : x ≤ x + y ∧ x ≤ y + x := by
  have hsum := isNumber_right (Binary.add_nonneg hx hy)
  rw [Binary.add_comm y x, and_self]
  rcases isFinite_or_infinite_of_nonneg hx with hxf | rfl
  · rcases isFinite_or_infinite_of_nonneg hy with hyf | rfl
    · rw [le_iff_value hxf.1 hsum]
      exact (rounds_add hxf hyf).le_value hxf.1 (le_add_of_nonneg_right (nonneg_iff.1 hy).2)
    · rw [Binary.add_comm] at hsum ⊢
      rw [signedInfinity_add hsum]
      exact le_signedInfinity hxf.1
  · rw [signedInfinity_add hsum]
    exact Binary.le_refl rfl

/-- Numbers are whole multiples of the least one. -/
theorem isMultiple_value (hx : x.isNumber = true) : f.IsMultiple 0 x.value := by
  cases x with
  | nan => cases hx
  | number s r h =>
    refine ⟨signFactor s * f.units r, ?_⟩
    rw [value_number]
    push_cast
    ring

/-- A difference is only rounded to zero if it is zero, so it has the sign that the order says. -/
theorem sub_nonpos_iff (hy : y.IsFinite) : x - y ≤ 0 ↔ x ≤ y := by
  constructor
  · intro h
    have hx : x.isNumber = true := by
      cases x with
      | nan => cases isNumber_left h
      | number => rfl
    by_cases hfin : x.IsFinite
    · rw [le_iff_value hx hy.1]
      by_contra hlt
      have hgap := ((isMultiple_value hx).sub (isMultiple_value hy.1)).le_of_pos
        (sub_pos.2 (not_le.1 hlt))
      rw [pow_zero, one_mul] at hgap
      have hone : 1 ≤ 2 * f.leading := Nat.mul_pos two_pos f.leading_pos
      have hunit := (rounds_sub hfin hy).units_le_value hone (by simpa using hgap)
      rw [Nat.cast_one, one_mul] at hunit
      have := f.unit_pos
      linarith [(nonpos_iff.1 h).2]
    · obtain ⟨s, rfl⟩ := exists_eq_signedInfinity hx hfin
      rw [signedInfinity_sub s hy] at h
      cases s with
      | true => exact signedInfinity_le hy.1
      | false => exact absurd h not_signedInfinity_nonpos
  · intro h
    have hx := isNumber_left h
    obtain ⟨hn, hle, -⟩ := sub_signs hx hy
    exact nonpos_iff.2 ⟨hn, hle (value_le_value h)⟩

/-! ## Products -/

protected theorem mul_comm (x y : Binary f) : x * y = y * x := by
  change x.mul y = y.mul x
  cases x with
  | nan => cases y <;> rfl
  | number s a ha =>
    cases y with
    | nan => rfl
    | number t b hb =>
      simp only [mul, or_comm, bne_comm, Nat.mul_comm]
      rw [add_comm (f.scale a : Int)]

protected theorem neg_mul (x y : Binary f) : -x * y = -(x * y) := by
  change (neg x).mul y = (x.mul y).neg
  cases x with
  | nan => rfl
  | number s a ha =>
    cases y with
    | nan => rfl
    | number t b hb =>
      have hs : ((!s) != t) = !(s != t) := by cases s <;> cases t <;> rfl
      simp only [mul, neg, hs]
      split_ifs <;> rfl

/-- A factor that is not below zero leaves an infinity as it is, if the product is a number. -/
theorem signedInfinity_mul_of_nonneg {s : Bool} (hc : 0 ≤ c)
    (h : (signedInfinity s * c).isNumber = true) : signedInfinity s * c = signedInfinity s := by
  cases c with
  | nan => cases isNumber_right hc
  | number t b hb =>
    have hb0 : b ≠ 0 := by
      rintro rfl
      change ((signedInfinity s).mul (number t 0 hb)).isNumber = true at h
      simp [signedInfinity, mul, isNumber] at h
    -- what is above zero is not negative
    have ht : t = false := by
      rw [le_iff, place_zero, place_number] at hc
      cases t with
      | false => rfl
      | true =>
        rw [signFactor_true] at hc
        omega
    rw [signedInfinity_mul s t hb0, ht, Bool.bne_false]

theorem neg_nonneg_iff : 0 ≤ -x ↔ x ≤ 0 := by
  rw [nonneg_iff, nonpos_iff, isNumber_neg, value_neg, neg_nonneg]

theorem not_signedInfinity_nonneg : ¬ 0 ≤ (signedInfinity true : Binary f) := fun h =>
  not_signedInfinity_nonpos (neg_nonneg_iff.1 h)

protected theorem mul_neg (x y : Binary f) : x * -y = -(x * y) := by
  rw [Binary.mul_comm, Binary.neg_mul, Binary.mul_comm]

/-- A factor that is not above zero turns the infinity above into the one below. -/
theorem signedInfinity_mul_of_nonpos (hx : x ≤ 0)
    (h : (signedInfinity false * x).isNumber = true) :
    signedInfinity false * x = signedInfinity true := by
  have e := Binary.mul_neg (signedInfinity false) x
  have hn : (signedInfinity false * -x).isNumber = true := by rwa [e, isNumber_neg]
  rw [signedInfinity_mul_of_nonneg (neg_nonneg_iff.2 hx) hn] at e
  rw [← Binary.neg_neg (signedInfinity false * x), ← e]
  rfl

protected theorem mul_le_mul_right (hc : 0 ≤ c) (hxy : x ≤ y) (h : (x * c).isNumber = true)
    (h' : (y * c).isNumber = true) : x * c ≤ y * c := by
  rcases isFinite_or_infinite_of_nonneg hc with hcf | rfl
  · rcases isFinite_or_infinite_of_le hxy with ⟨hx, hy⟩ | rfl | rfl
    · rw [le_iff_value h h']
      exact (rounds_mul hx hcf).value_le_value (rounds_mul hy hcf)
        (mul_le_mul_of_nonneg_right (value_le_value hxy) (nonneg_iff.1 hc).2)
    · rw [signedInfinity_mul_of_nonneg hc h]
      exact signedInfinity_le h'
    · rw [signedInfinity_mul_of_nonneg hc h']
      exact le_signedInfinity h
  · rw [Binary.mul_comm] at h ⊢
    rw [Binary.mul_comm y] at h' ⊢
    rcases Binary.le_total isNumber_zero (isNumber_left hxy) with hx | hx
    · rw [signedInfinity_mul_of_nonneg (Binary.le_trans hx hxy) h']
      exact le_signedInfinity h
    · rw [signedInfinity_mul_of_nonpos hx h]
      exact signedInfinity_le h'

protected theorem mul_le_mul_left (hc : 0 ≤ c) (hxy : x ≤ y) (h : (c * x).isNumber = true)
    (h' : (c * y).isNumber = true) : c * x ≤ c * y := by
  rw [Binary.mul_comm c] at h h' ⊢
  rw [Binary.mul_comm c]
  exact Binary.mul_le_mul_right hc hxy h h'

protected theorem mul_le_mul_right_of_nonpos (hc : c ≤ 0) (hxy : x ≤ y)
    (h : (x * c).isNumber = true) (h' : (y * c).isNumber = true) : y * c ≤ x * c := by
  rw [← Binary.neg_le_neg_iff, ← Binary.mul_neg, ← Binary.mul_neg]
  exact Binary.mul_le_mul_right (neg_nonneg_iff.2 hc) hxy (by rwa [Binary.mul_neg, isNumber_neg])
    (by rwa [Binary.mul_neg, isNumber_neg])

/-- A factor keeps or reverses the order as its sign says. -/
theorem mul_le_mul_of_sign (hc : c.IsFinite) (hx : x.IsFinite) (hy : y.IsFinite)
    (hneg : c < 0 → y ≤ x) (hpos : ¬ c < 0 → x ≤ y) : c * x ≤ c * y := by
  have hcx := (rounds_mul hc hx).isNumber
  have hcy := (rounds_mul hc hy).isNumber
  by_cases h : c < 0
  · rw [Binary.mul_comm] at hcx ⊢
    rw [Binary.mul_comm c] at hcy ⊢
    exact Binary.mul_le_mul_right_of_nonpos (Binary.le_of_lt h) (hneg h) hcy hcx
  · exact Binary.mul_le_mul_left ((Binary.not_lt hc.1 isNumber_zero).1 h) (hpos h) hcx hcy

protected theorem abs_mul_abs_self (x : Binary f) : x.abs * x.abs = x * x := by
  change x.abs.mul x.abs = x.mul x
  cases x with
  | nan => rfl
  | number s a ha => simp only [abs, mul, bne_self_eq_false]

/-- A difference has the same square both ways. -/
theorem sub_mul_sub_comm (x y : Binary f) : (x - y) * (x - y) = (y - x) * (y - x) := by
  rw [← Binary.abs_mul_abs_self, Binary.abs_sub_comm, Binary.abs_mul_abs_self]

theorem signedInfinity_mul_self (s : Bool) :
    (signedInfinity s * signedInfinity s : Binary f) = signedInfinity false := by
  have e : signedInfinity s * number s f.top le_rfl = signedInfinity (s != s) :=
    signedInfinity_mul s s f.top_pos.ne'
  rwa [bne_self_eq_false] at e

protected theorem mul_self_nonneg (hx : x.isNumber = true) : 0 ≤ x * x := by
  by_cases hfin : x.IsFinite
  · have h := rounds_mul hfin hfin
    exact nonneg_iff.2 ⟨h.isNumber, h.value_nonneg (mul_self_nonneg _)⟩
  · obtain ⟨s, rfl⟩ := exists_eq_signedInfinity hx hfin
    rw [signedInfinity_mul_self]
    exact le_signedInfinity rfl

/-- A square is monotone in the magnitude. -/
protected theorem mul_self_le_mul_self (hx : x.isNumber = true) (hy : y.isNumber = true)
    (h : |x.value| ≤ |y.value|) : x * x ≤ y * y := by
  have hsx := isNumber_right (Binary.mul_self_nonneg hx)
  by_cases hfin : y.IsFinite
  · have hxf := isFinite_of_abs_lt hx (h.trans_lt hfin.abs_value_lt)
    rw [le_iff_value hsx (isNumber_right (Binary.mul_self_nonneg hy))]
    exact (rounds_mul hxf hxf).value_le_value (rounds_mul hfin hfin) (abs_le_iff_mul_self_le.1 h)
  · obtain ⟨s, rfl⟩ := exists_eq_signedInfinity hy hfin
    rw [signedInfinity_mul_self]
    exact le_signedInfinity hsx

protected theorem mul_self_le_mul_self_of_nonneg (h0 : 0 ≤ x) (h : x ≤ y) : x * x ≤ y * y := by
  have hx := (nonneg_iff.1 h0).2
  have hy := (nonneg_iff.1 (Binary.le_trans h0 h)).2
  refine Binary.mul_self_le_mul_self (isNumber_left h) (isNumber_right h) ?_
  rw [abs_of_nonneg hx, abs_of_nonneg hy]
  exact value_le_value h

/-! ## Quotients -/

/-- A finite divisor above zero leaves an infinity as it is. -/
theorem signedInfinity_div {s : Bool} (hc : c.IsFinite) (h0 : 0 < c) :
    signedInfinity s / c = signedInfinity s := by
  change (signedInfinity s).div c = signedInfinity s
  cases c with
  | nan => cases hc.1
  | number t b hb =>
    cases t with
    | true =>
      rw [lt_iff, place_zero, place_number, signFactor_true] at h0
      omega
    | false => simp [signedInfinity, div, isFinite_number.1 hc]

theorem signedInfinity_div_signedInfinity (s t : Bool) :
    (signedInfinity s / signedInfinity t : Binary f) = nan := by
  change (signedInfinity s).div (signedInfinity t) = nan
  simp [signedInfinity, div]

protected theorem div_le_div_right (hc : c.IsFinite) (h0 : 0 < c) (hxy : x ≤ y) :
    x / c ≤ y / c := by
  have hpos := (pos_iff.1 h0).2
  -- what is divided is finite, or is an infinity and stays where it is
  have isNumber_div : ∀ {z : Binary f}, z.isNumber = true → (z / c).isNumber = true := by
    intro z hz
    by_cases hzf : z.IsFinite
    · exact (rounds_div hzf hc hpos.ne').isNumber
    · obtain ⟨s, rfl⟩ := exists_eq_signedInfinity hz hzf
      rw [signedInfinity_div hc h0]
      rfl
  have hx := isNumber_div (isNumber_left hxy)
  have hy := isNumber_div (isNumber_right hxy)
  rcases isFinite_or_infinite_of_le hxy with ⟨hxf, hyf⟩ | rfl | rfl
  · rw [le_iff_value hx hy]
    exact (rounds_div hxf hc hpos.ne').value_le_value (rounds_div hyf hc hpos.ne')
      (div_le_div_of_nonneg_right (value_le_value hxy) hpos.le)
  · rw [signedInfinity_div hc h0]
    exact signedInfinity_le hy
  · rw [signedInfinity_div hc h0]
    exact le_signedInfinity hx

end Binary

/-! ## Squared lengths -/

namespace Vec3

variable {f : Format} {a : Vec3 (Binary f)}

theorem All.isNumber (ha : a.All Binary.IsFinite) : a.All (·.isNumber = true) :=
  ha.mono fun _ h => h.1

/-- A vector whose squared length is a number has components that are. -/
theorem isNumber_of_normSq (h : a.normSq.isNumber = true) : a.All (·.isNumber = true) := by
  obtain ⟨hxy, hz⟩ := Binary.isNumber_of_add h
  obtain ⟨hx, hy⟩ := Binary.isNumber_of_add hxy
  exact ⟨(Binary.isNumber_of_mul hx).1, (Binary.isNumber_of_mul hy).1,
    (Binary.isNumber_of_mul hz).1⟩

theorem normSq_nonneg (ha : a.All (·.isNumber = true)) : 0 ≤ a.normSq :=
  Binary.add_nonneg (Binary.add_nonneg (Binary.mul_self_nonneg ha.1)
    (Binary.mul_self_nonneg ha.2.1)) (Binary.mul_self_nonneg ha.2.2)

end Vec3

end HitTest
