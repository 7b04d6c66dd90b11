import HitTest.Proofs.Exact.Probe
import HitTest.Proofs.Random.Ensures
import HitTest.Proofs.Random.UnitDraw

/-!
# Exact draws

Small natural numbers are exact in 64 bits, and so are the fractions that words stand for. So every
source of words is a source of elements of the field from zero to one when it is read exactly. What
is drawn from a source of elements is made of elements.
-/

namespace HitTest

namespace Exact

variable {K : Type} [Field K] [LinearOrder K] {P : Params K}

/-! ## Constants -/

/-- A finite number of 64 bits is read as what it stands for. -/
theorem ofBinary64_of_isFinite {z : Binary64} (h : z.IsFinite) :
    (Scalar.ofBinary64 z : Exact P) = value (z.value : K) := by
  cases z with
  | nan => cases h.1
  | number s r hr => exact if_neg (Binary.isFinite_number.1 h)

@[simp] theorem epsilon_eq : (Scalar.epsilon : Exact P) = value P.epsilon := by rfl

@[simp] theorem Params.real_epsilon {ε τ : ℝ} {h : 0 < τ} : (Params.real ε τ h).epsilon = ε := by
  rfl

theorem ofNat_eq {n : Nat} (hn : n ≤ 2 ^ 53) : (Scalar.ofNat n : Exact P) = value (n : K) := by
  obtain ⟨hvalue, hfin⟩ := Binary.value_ofNat_double hn
  rw [Scalar.ofNat, ofBinary64_of_isFinite hfin, hvalue, Rat.cast_natCast]

@[simp] theorem two_eq : (Scalar.two : Exact P) = value 2 := by
  rw [Scalar.two, ofNat_eq (by decide), Nat.cast_ofNat]

@[simp] theorem four_eq : (Scalar.four : Exact P) = value 4 := by
  rw [Scalar.four, ofNat_eq (by decide), Nat.cast_ofNat]

@[simp] theorem tolerance_eq : (Scalar.tolerance : Exact P) = value (100 * P.epsilon) := by
  rw [Scalar.tolerance, ofNat_eq (by decide), epsilon_eq, mul_value, Nat.cast_ofNat]

/-! ## Elements -/

/-- Neither below nor above all elements. -/
def IsElement (a : Exact P) : Prop := ∃ x : K, a = value x

/-- An element from zero to one. -/
def IsUnitElement (a : Exact P) : Prop := ∃ x : K, 0 ≤ x ∧ x ≤ 1 ∧ a = value x

theorem IsUnitElement.isElement {a : Exact P} (h : IsUnitElement a) : IsElement a :=
  let ⟨x, _, _, e⟩ := h
  ⟨x, e⟩

theorem exists_eq_map_of_all {a : Vec3 (Exact P)} (h : a.All IsElement) :
    ∃ b : Vec3 K, a = b.map value := by
  obtain ⟨⟨x, hx⟩, ⟨y, hy⟩, ⟨z, hz⟩⟩ := h
  exact ⟨⟨x, y, z⟩, Vec3.ext hx hy hz⟩

variable [IsStrictOrderedRing K]

/-- A word is read as an element from zero to one. -/
theorem isUnitElement_of_word (word : UInt64) :
    IsUnitElement (Scalar.ofBinary64 (unitFraction word) : Exact P) := by
  obtain ⟨hfin, hv⟩ := Binary.value_unitFraction word
  have hle : (unitFraction word).value ≤ 1 := hv ▸ (unitValue_lt_one word).le
  have hnonneg : 0 ≤ (unitFraction word).value := hv ▸ unitValue_nonneg word
  exact ⟨_, by exact_mod_cast hnonneg, by exact_mod_cast hle, ofBinary64_of_isFinite hfin⟩

/-- Every source of words is a source of elements from zero to one. -/
theorem yields_isUnitElement {G : Type} [WordSource G] {I : G → Prop}
    (h : ∀ g, I g → I (WordSource.next g).2) :
    Draw.Yields I (IsUnitElement : Exact P → Prop) :=
  fun g hg => ⟨isUnitElement_of_word (WordSource.next g).1, h g hg⟩

end Exact

end HitTest
