import HitTest.Proofs.Binary.Magnitude
import HitTest.Proofs.Binary.Order
import HitTest.Proofs.Binary.Roundoff

/-!
# Comparison up to a tolerance (`equivalent_with`)

Two vectors are equal up to a tolerance if their difference is less than a share of their sizes and
a fixed amount together. A finite vector is equal to itself: it is taken from itself without rest,
and what is allowed is more than nothing, also where the sizes overflow. Neither the difference nor
the sizes depend on which vector comes first, because a rounded difference has the same magnitude
both ways. And a greater tolerance never allows less, because rounding keeps the order.
-/

namespace HitTest

open Binary hiding min max

variable {f : Format}

/-! ## Numbers -/

namespace Binary

variable {x y c : Binary f}

theorem value_tolerance : (Scalar.tolerance : Binary f).value = 200 * f.roundoff := by
  cases f <;> decide +kernel

theorem isFinite_tolerance : (Scalar.tolerance : Binary f).IsFinite := by
  cases f <;> decide +kernel

theorem tolerance_pos : 0 < (Scalar.tolerance : Binary f) := by
  rw [pos_iff, value_tolerance]
  exact ⟨isFinite_tolerance.1, mul_pos (by norm_num) f.roundoff_pos⟩

theorem abs_nonneg_of_isNumber (hx : x.isNumber = true) : 0 ≤ x.abs :=
  nonneg_iff.2 ⟨(isNumber_abs x).trans hx, by rw [value_abs]; exact abs_nonneg _⟩

/-- A finite number is taken from itself without rest. -/
protected theorem sub_self (hx : x.IsFinite) : x - x = 0 := by
  change x.add x.neg = signedZero false
  cases x with
  | nan => cases hx.1
  | number s a ha =>
    rw [isFinite_number] at hx
    simp [add, neg, addFinite, addOpposite, hx]

/-- A finite factor above zero leaves what is not below zero there, also where that is infinite. -/
protected theorem IsFinite.mul_nonneg (hc : c.IsFinite) (h0 : 0 < c) (hx : 0 ≤ x) : 0 ≤ c * x := by
  rw [pos_iff] at h0
  rw [nonneg_iff] at hx ⊢
  obtain ⟨hn, -, hsign⟩ := mul_signs hx.1 hc h0.2.ne'
  rw [Binary.mul_comm]
  exact ⟨hn, hsign (mul_nonneg hx.2 h0.2.le)⟩

/-- A finite number above zero is not lost in a sum with what is not below zero. -/
protected theorem IsFinite.add_pos (hy : y.IsFinite) (h0 : 0 < y) (hx : 0 ≤ x) : 0 < x + y := by
  have hsum := isNumber_right (Binary.add_nonneg hx (Binary.le_of_lt h0))
  have hround := rounds_add isFinite_zero hy
  rw [value_zero, zero_add] at hround
  have hpos : 0 < 0 + y := by
    rw [pos_iff, (hround.of_value hy).2]
    exact ⟨hround.isNumber, (pos_iff.1 h0).2⟩
  exact Binary.lt_of_lt_of_le hpos
    (Binary.add_le_add hx (Binary.le_refl hy.1) hround.isNumber hsum)

end Binary

/-! ## Vectors -/

namespace Vec3

variable {a b : Vec3 (Binary f)} {r r' t t' : Binary f}

theorem norm1_nonneg (ha : a.All IsFinite) : 0 ≤ a.norm1 :=
  Binary.add_nonneg (Binary.add_nonneg (abs_nonneg_of_isNumber ha.1.1)
    (abs_nonneg_of_isNumber ha.2.1.1)) (abs_nonneg_of_isNumber ha.2.2.1)

theorem norm1_sub_self (ha : a.All IsFinite) : (a - a).norm1 = 0 := by
  unfold norm1
  rw [sub_x, sub_y, sub_z, Binary.sub_self ha.1, Binary.sub_self ha.2.1, Binary.sub_self ha.2.2]
  cases f <;> rfl

theorem norm1_sub_comm (a b : Vec3 (Binary f)) : (a - b).norm1 = (b - a).norm1 := by
  change (a.x - b.x).abs + (a.y - b.y).abs + (a.z - b.z).abs =
    (b.x - a.x).abs + (b.y - a.y).abs + (b.z - a.z).abs
  rw [Binary.abs_sub_comm a.x, Binary.abs_sub_comm a.y, Binary.abs_sub_comm a.z]

theorem equivalentWith_iff : a.equivalentWith b r t = true ↔
    (a - b).norm1 < r * (a.norm1 + b.norm1) + t := decide_eq_true_iff

/-- What finite vectors may differ by is more than nothing. -/
theorem allowed_pos (ha : a.All IsFinite) (hb : b.All IsFinite) :
    0 < (Scalar.tolerance * (a.norm1 + b.norm1) + Scalar.tolerance : Binary f) :=
  isFinite_tolerance.add_pos tolerance_pos
    (isFinite_tolerance.mul_nonneg tolerance_pos
      (Binary.add_nonneg (norm1_nonneg ha) (norm1_nonneg hb)))

theorem equivalent_self (ha : a.All IsFinite) : a.equivalent a = true := by
  rw [equivalent, equivalentWith_iff, norm1_sub_self ha]
  exact allowed_pos ha ha

theorem equivalentWith_comm (a b : Vec3 (Binary f)) (r t : Binary f) :
    a.equivalentWith b r t = b.equivalentWith a r t := by
  unfold equivalentWith
  rw [norm1_sub_comm, Binary.add_comm a.norm1]

/-- What greater tolerances allow is not less, if it is a number. -/
theorem equivalentWith_of_le (ha : a.All IsFinite) (hb : b.All IsFinite) (hr : r ≤ r')
    (ht : t ≤ t') (hnum : (r' * (a.norm1 + b.norm1) + t').isNumber = true)
    (h : a.equivalentWith b r t = true) : a.equivalentWith b r' t' = true := by
  rw [equivalentWith_iff] at h ⊢
  have hsize := Binary.add_nonneg (norm1_nonneg ha) (norm1_nonneg hb)
  have hsum : (r * (a.norm1 + b.norm1) + t).isNumber = true := ((lt_iff _ _).1 h).2.1
  have hmul := Binary.mul_le_mul_right hsize hr (isNumber_of_add hsum).1 (isNumber_of_add hnum).1
  exact Binary.lt_of_lt_of_le h (Binary.add_le_add hmul ht hsum hnum)

/-! ## Laws of the comparison -/

/-- A finite vector is equal to itself up to roundoff, whatever its size (`equivalent`,
`equivalent_with`). Vectors of any bits can be exchanged, with tolerances of any bits. Finite
vectors that are equal up to some tolerances are so up to all greater ones, if what those allow is a
number. -/
theorem equivalent_refl_comm_mono :
    (∀ a : Vec3 (Binary f), a.All IsFinite → a.equivalent a = true) ∧
    (∀ (a b : Vec3 (Binary f)) (r t : Binary f),
      a.equivalentWith b r t = b.equivalentWith a r t) ∧
    ∀ a b : Vec3 (Binary f), a.All IsFinite → b.All IsFinite → ∀ r t r' t' : Binary f,
      r ≤ r' → t ≤ t' → (r' * (a.norm1 + b.norm1) + t').isNumber = true →
        a.equivalentWith b r t = true → a.equivalentWith b r' t' = true :=
  ⟨fun _ => equivalent_self, equivalentWith_comm,
    fun _ _ ha hb _ _ _ _ hr ht hnum => equivalentWith_of_le ha hb hr ht hnum⟩

/-- The sum of three components of `2 ^ 127` is infinite, and still the vector is equal to itself. A
vector that is not finite and a tolerance that is not a number give one answer both ways. What
differs by one is equal up to two, so it is up to an infinite tolerance. -/
theorem equivalent_refl_comm_mono_large :
    ((⟨ofDyadic 1 127, ofDyadic 1 127, ofDyadic 1 127⟩ : Vec3 Binary32).norm1 = infinity ∧
      (⟨ofDyadic 1 127, ofDyadic 1 127, ofDyadic 1 127⟩ : Vec3 Binary32).equivalent
        ⟨ofDyadic 1 127, ofDyadic 1 127, ofDyadic 1 127⟩ = true) ∧
    (⟨infinity, 0, nan⟩ : Vec3 Binary32).equivalentWith 0 infinity nan =
      (0 : Vec3 Binary32).equivalentWith ⟨infinity, 0, nan⟩ infinity nan ∧
    (0 : Vec3 Binary32).equivalentWith ⟨1, 0, 0⟩ infinity infinity = true := by
  obtain ⟨hself, hcomm, hmono⟩ := equivalent_refl_comm_mono (f := .single)
  refine ⟨⟨by decide +kernel, hself _ (by decide +kernel)⟩, hcomm _ _ _ _, ?_⟩
  exact hmono 0 ⟨1, 0, 0⟩ (by decide) (by decide) 0 (ofNat 2) infinity infinity (by decide)
    (by decide) (by decide +kernel) (by decide +kernel)

end Vec3

end HitTest
