import HitTest.Proofs.Binary.Approx
import HitTest.Proofs.Shape.Enclosure

/-!
# A vector turned around an axis

The cross product with a coordinate axis leaves out the component along it and exchanges the other
two, one of them with the opposite sign. Only products by one and zero are formed, so nothing is
rounded. If the component left out is the least one, the result is as long as the vector up to that,
and it is perpendicular to the vector.
-/

namespace HitTest

open Binary hiding min max

variable {f : Format}

/-! ## Axes in turn -/

namespace Axis

/-- The axis that comes next in turn. -/
def next : Axis → Axis
  | x => y
  | y => z
  | z => x

@[simp] theorem next_next_next (i : Axis) : i.next.next.next = i := by cases i <;> rfl

theorem forall_iff_next {P : Axis → Prop} (i : Axis) :
    (∀ j, P j) ↔ P i ∧ P i.next ∧ P i.next.next := by
  rw [forall_iff]
  cases i with
  | x => rfl
  | y => exact ⟨fun h => ⟨h.2.1, h.2.2, h.1⟩, fun h => ⟨h.2.2, h.1, h.2.1⟩⟩
  | z => exact ⟨fun h => ⟨h.2.2, h.1, h.2.1⟩, fun h => ⟨h.2.1, h.2.2, h.1⟩⟩

/-- The vector of length one along an axis. -/
def unit {S : Type} [Zero S] [One S] : Axis → Vec3 S
  | x => ⟨1, 0, 0⟩
  | y => ⟨0, 1, 0⟩
  | z => ⟨0, 0, 1⟩

theorem coord_unit {S : Type} [Zero S] [One S] (i : Axis) : (unit i : Vec3 S).coord i = 1 ∧
    (unit i : Vec3 S).coord i.next = 0 ∧ (unit i : Vec3 S).coord i.next.next = 0 := by
  cases i <;> exact ⟨rfl, rfl, rfl⟩

end Axis

namespace Binary

variable {x y z b d : Binary f}

/-- A difference of products by one and zero, or by zeros, is not rounded. -/
theorem mul_sub_mul_spec (hx : x.IsFinite) (hy : y.IsFinite)
    (h : b = 1 ∧ d = 0 ∨ b = 0 ∧ d = 1 ∨ b = 0 ∧ d = 0) : (x * b - y * d).IsFinite ∧
      (x * b - y * d).value = x.value * b.value - y.value * d.value := by
  obtain ⟨hx0, ex0⟩ := mul_zero_spec hx
  obtain ⟨hx1, ex1⟩ := mul_one_spec hx
  obtain ⟨hy0, ey0⟩ := mul_zero_spec hy
  obtain ⟨hy1, ey1⟩ := mul_one_spec hy
  rcases h with ⟨rfl, rfl⟩ | ⟨rfl, rfl⟩ | ⟨rfl, rfl⟩
  · have hround := rounds_sub hx1 hy0
    rw [ex1, ey0, sub_zero] at hround
    simpa using hround.of_value hx
  · have hround := rounds_sub hx0 hy1
    rw [ex0, ey1, zero_sub, ← value_neg] at hround
    simpa using hround.of_value hy.neg
  · have hround := rounds_sub hx0 hy0
    rw [ex0, ey0, sub_self, ← value_zero (f := f)] at hround
    simpa using hround.of_value isFinite_zero

/-- Nothing is added by a zero. -/
theorem add_le_of_value_eq_zero (hx : x.isNumber = true) (h0 : x.value = 0) (hy : 0 ≤ y) :
    x + y ≤ y ∧ y + x ≤ y := by
  rw [Binary.add_comm y x, and_self]
  rcases isFinite_or_infinite_of_nonneg hy with hfin | rfl
  · have hround := rounds_add (isFinite_of_abs_le_four hx (by rw [h0]; norm_num)) hfin
    rw [h0, zero_add] at hround
    rw [le_iff_value hround.isNumber hfin.1, (hround.of_value hfin).2]
  · have hsum := isNumber_right (Binary.add_nonneg (nonneg_iff.2 ⟨hx, h0.ge⟩) hy)
    exact le_signedInfinity hsum

theorem value_mul_self_eq_zero (h0 : x.value = 0) (hx : x.isNumber = true) :
    (x * x).value = 0 := by
  have hfin := isFinite_of_abs_le_four hx (by rw [h0]; norm_num)
  have hround := rounds_mul hfin hfin
  rw [h0, mul_zero] at hround
  exact hround.value_eq_zero

end Binary

namespace Vec3

/-! ## Components in turn -/

section Next

variable {S : Type}

theorem coord_cross [Sub S] [Mul S] (a b : Vec3 S) (i : Axis) : (a.cross b).coord i =
    a.coord i.next * b.coord i.next.next - a.coord i.next.next * b.coord i.next := by
  cases i <;> rfl

theorem dot_eq_next {R : Type} [CommRing R] (a b : Vec3 R) (i : Axis) : a.dot b =
    a.coord i * b.coord i + a.coord i.next * b.coord i.next +
      a.coord i.next.next * b.coord i.next.next := by
  cases i <;> simp only [dot, coord, Axis.next] <;> ring

end Next

variable {v c : Vec3 (Binary f)}

theorem coord_values (v : Vec3 (Binary f)) (i : Axis) : v.values.coord i = (v.coord i).value := by
  cases i <;> rfl

theorem coord_magnitudes (v : Vec3 (Binary f)) (i : Axis) :
    v.magnitudes.coord i = |(v.coord i).value| := by
  cases i <;> rfl

/-- A squared length is not above that of the components which are not zero. -/
theorem normSq_le_of_value_eq_zero {i : Axis} (hc : c.All (·.isNumber = true))
    (h0 : (c.coord i).value = 0) : c.normSq ≤
      c.coord i.next * c.coord i.next + c.coord i.next.next * c.coord i.next.next := by
  have hx := Binary.mul_self_nonneg hc.1
  have hy := Binary.mul_self_nonneg hc.2.1
  have hz := Binary.mul_self_nonneg hc.2.2
  have hzero := value_mul_self_eq_zero h0 (all_iff_coord.1 hc i)
  cases i with
  | x =>
    have hle := (add_le_of_value_eq_zero (isNumber_right hx) hzero hy).1
    exact (Binary.add_le_add_of_nonneg (Binary.add_nonneg hx hy) hle hz (Binary.le_self hz)).2
  | y =>
    have hle := (add_le_of_value_eq_zero (isNumber_right hy) hzero hx).2
    refine Binary.le_trans
      (Binary.add_le_add_of_nonneg (Binary.add_nonneg hx hy) hle hz (Binary.le_self hz)).2 ?_
    rw [Binary.add_comm]
    exact Binary.le_self (Binary.add_nonneg hz hx)
  | z => exact (add_le_of_value_eq_zero (isNumber_right hz) hzero (Binary.add_nonneg hx hy)).2

/-- Nor is that of two components above the whole. -/
theorem add_mul_self_le_normSq (hv : v.All (·.isNumber = true)) (i : Axis) :
    v.coord i.next * v.coord i.next + v.coord i.next.next * v.coord i.next.next ≤ v.normSq := by
  have hx := Binary.mul_self_nonneg hv.1
  have hy := Binary.mul_self_nonneg hv.2.1
  have hz := Binary.mul_self_nonneg hv.2.2
  cases i with
  | x => exact (Binary.add_le_add_of_nonneg hy (le_add_of_nonneg hy hx).2 hz (Binary.le_self hz)).2
  | y =>
    rw [Binary.add_comm]
    exact (Binary.add_le_add_of_nonneg hx (le_add_of_nonneg hx hy).1 hz (Binary.le_self hz)).2
  | z => exact (le_add_of_nonneg (Binary.add_nonneg hx hy) hz).1

/-! ## The vector that is turned -/

/-- A vector turned around the axis along which it is shortest. -/
def turned (v : Vec3 (Binary f)) : Vec3 (Binary f) := v.cross v.shortestAxis

/-- The component along the axis that is chosen is the least. -/
theorem exists_shortestAxis (hv : v.All (·.isNumber = true)) : ∃ i, v.shortestAxis = Axis.unit i ∧
    |(v.coord i).value| ≤ |(v.coord i.next).value| ∧
      |(v.coord i).value| ≤ |(v.coord i.next.next).value| := by
  have hle : ∀ {x y : Binary f}, x.isNumber = true → y.isNumber = true →
      (Scalar.abs x ≤ Scalar.abs y ↔ |x.value| ≤ |y.value|) := by
    intro x y hx hy
    rw [← value_abs, ← value_abs]
    exact le_iff_value ((isNumber_abs x).trans hx) ((isNumber_abs y).trans hy)
  obtain ⟨hx, hy, hz⟩ := hv
  unfold shortestAxis
  dsimp only
  simp only [hle hx hy, hle hx hz, hle hy hz]
  split
  · rename_i h
    exact ⟨.x, rfl, h⟩
  · rename_i hnot
    rw [not_and_or, not_le, not_le] at hnot
    split
    · rename_i hyz
      refine ⟨.y, rfl, hyz, ?_⟩
      rcases hnot with hlt | hlt
      · exact hlt.le
      · exact hyz.trans hlt.le
    · rename_i hyz
      rw [not_le] at hyz
      refine ⟨.z, rfl, ?_, hyz.le⟩
      rcases hnot with hlt | hlt
      · exact (hyz.trans hlt).le
      · exact hlt.le

/-- The components of a vector and of the one that it is turned to: the least is left out, and the
other two are exchanged. -/
structure IsTurn (v c : Vec3 (Binary f)) (i : Axis) : Prop where
  isFinite : c.All IsFinite
  least : |(v.coord i).value| ≤ |(v.coord i.next).value|
  least' : |(v.coord i).value| ≤ |(v.coord i.next.next).value|
  coord : (c.coord i).value = 0
  coord_next : (c.coord i.next).value = (v.coord i.next.next).value
  coord_next' : (c.coord i.next.next).value = -(v.coord i.next).value

theorem exists_isTurn (hv : v.All IsFinite) : ∃ i, IsTurn v v.turned i := by
  obtain ⟨i, hunit, hle, hle'⟩ := exists_shortestAxis hv.isNumber
  have hfin := all_iff_coord.1 hv
  obtain ⟨h1, h0, h0'⟩ := Axis.coord_unit (S := Binary f) i
  have hcoord : ∀ j, v.turned.coord j = v.coord j.next * (Axis.unit i).coord j.next.next -
      v.coord j.next.next * (Axis.unit i).coord j.next := by
    intro j
    rw [turned, hunit, coord_cross]
  have hi := mul_sub_mul_spec (hfin i.next) (hfin i.next.next) (.inr (.inr ⟨h0', h0⟩))
  have hi' := mul_sub_mul_spec (hfin i.next.next) (hfin i) (.inl ⟨h1, h0'⟩)
  have hi'' := mul_sub_mul_spec (hfin i) (hfin i.next) (.inr (.inl ⟨h0, h1⟩))
  have e := hcoord i
  have e' := hcoord i.next
  have e'' := hcoord i.next.next
  rw [Axis.next_next_next] at e' e''
  rw [← e] at hi
  rw [← e'] at hi'
  rw [← e''] at hi''
  refine ⟨i, all_iff_coord.2 ((Axis.forall_iff_next i).2 ⟨hi.1, hi'.1, hi''.1⟩), hle, hle',
    ?_, ?_, ?_⟩
  · rw [hi.2, h0, h0', value_zero]
    ring
  · rw [hi'.2, h1, h0', value_one, value_zero]
    ring
  · rw [hi''.2, h1, h0, value_one, value_zero]
    ring

namespace IsTurn

variable {i : Axis}

/-- What is turned is perpendicular to the vector. -/
theorem dot_eq_zero (h : IsTurn v c i) : c.values.dot v.values = 0 := by
  rw [dot_eq_next _ _ i]
  simp only [coord_values, h.coord, h.coord_next, h.coord_next']
  ring

theorem dot_magnitudes_le (h : IsTurn v c i) :
    c.magnitudes.dot v.magnitudes ≤ c.values.normSq := by
  rw [normSq, dot_eq_next _ _ i, dot_eq_next _ _ i]
  simp only [coord_values, coord_magnitudes, h.coord, h.coord_next, h.coord_next', abs_zero,
    abs_neg]
  have hy := abs_mul_abs_self (v.coord i.next).value
  have hz := abs_mul_abs_self (v.coord i.next.next).value
  nlinarith [sq_nonneg (|(v.coord i.next).value| - |(v.coord i.next.next).value|)]

/-- No component is greater than those it is turned to. -/
theorem exists_abs_le (h : IsTurn v c i) (j : Axis) :
    ∃ k, |(v.coord j).value| ≤ |(c.coord k).value| := by
  revert j
  rw [Axis.forall_iff_next i]
  refine ⟨⟨i.next.next, ?_⟩, ⟨i.next.next, ?_⟩, i.next, ?_⟩
  · rw [h.coord_next', abs_neg]
    exact h.least
  · rw [h.coord_next', abs_neg]
  · rw [h.coord_next]

/-- Nor are those greater. -/
theorem exists_abs_ge (h : IsTurn v c i) (j : Axis) :
    ∃ k, |(c.coord j).value| ≤ |(v.coord k).value| := by
  revert j
  rw [Axis.forall_iff_next i]
  refine ⟨⟨i, ?_⟩, ⟨i.next.next, ?_⟩, i.next, ?_⟩
  · rw [h.coord, abs_zero]
    exact abs_nonneg _
  · rw [h.coord_next]
  · rw [h.coord_next', abs_neg]

/-- Turning does not make a vector longer, also when the lengths are rounded. -/
theorem normSq_le (hv : v.All IsFinite) (h : IsTurn v c i) : c.normSq ≤ v.normSq := by
  have hvn := hv.isNumber
  have hcn := h.isFinite.isNumber
  have hsq : ∀ j k, |(c.coord j).value| = |(v.coord k).value| →
      0 ≤ c.coord j * c.coord j ∧ c.coord j * c.coord j ≤ v.coord k * v.coord k := fun j k e =>
    ⟨Binary.mul_self_nonneg (all_iff_coord.1 hcn j),
      Binary.mul_self_le_mul_self (all_iff_coord.1 hcn j) (all_iff_coord.1 hvn k) e.le⟩
  obtain ⟨h0, hle⟩ := hsq i.next i.next.next (by rw [h.coord_next])
  obtain ⟨h0', hle'⟩ := hsq i.next.next i.next (by rw [h.coord_next', abs_neg])
  have hsum := (Binary.add_le_add_of_nonneg h0 hle h0' hle').2
  rw [Binary.add_comm (v.coord _ * _)] at hsum
  exact Binary.le_trans (normSq_le_of_value_eq_zero hcn h.coord)
    (Binary.le_trans hsum (add_mul_self_le_normSq hvn i))

end IsTurn

end Vec3

end HitTest
