import HitTest.Proofs.Binary.Order
import HitTest.Proofs.Random.Advance
import HitTest.Proofs.Random.Rounding
import Mathlib.Data.Nat.Factorization.Basic

/-!
# Directions from counters (`random_direction` on a `StepRng`)

No measure goes down in the search for a direction. On a counter that counts it ends all the same:
some number of steps is half a turn, so of two words that far apart one is in the upper half, and
the scalar that is read from it makes its vector long enough. On a counter that does not count all
vectors are the same, and the search ends with the first of them or not at all.
-/

namespace HitTest

open WordSource (advance)

namespace Draw

variable {G : Type} [WordSource G] {S : Type} [Scalar S] {g g' : G} {n j tries : Nat}
  {d : Vec3 S}

/-! ## The search without a limit -/

/-- The direction that is found, and the source after it, by a search that goes on until one is. -/
def DirectionFound (g : G) (d : Vec3 S) (g' : G) : Prop :=
  ∃ tries, (direction tries : Draw G S (Vec3 S)).run g = .ok (d, g')

/-- If some vector is long enough, one of them is the first. -/
theorem exists_isFirstLong (h : IsLongAfter S g (n + 3 * j)) :
    ∃ k, k ≤ j + 1 ∧ IsFirstLong S g n k := by
  have hex : ∃ i, IsLongAfter S g (n + 3 * i) := ⟨j, h⟩
  have hle : Nat.find hex ≤ j := Nat.find_min' hex h
  refine ⟨Nat.find hex + 1, by omega, by omega, ?_, fun i hi => Nat.find_min hex (by omega)⟩
  rw [Nat.add_sub_cancel]
  exact Nat.find_spec hex

/-- A vector that is long enough ends the search, if the tries reach that far. -/
theorem exists_direction_run (h : IsLongAfter S g (3 * j)) (hj : j < tries) :
    ∃ d g', (direction tries : Draw G S (Vec3 S)).run g = .ok (d, g') := by
  rw [← Nat.zero_add (3 * j)] at h
  obtain ⟨k, hk, hfirst⟩ := exists_isFirstLong h
  exact ⟨_, _, (direction_run_eq_ok_iff (g := g) (n := 0)).2 ⟨k, by omega, hfirst, rfl, rfl⟩⟩

/-- What is found is the direction of the first vector that is long enough. -/
theorem directionFound_iff : DirectionFound g d g' ↔
    ∃ j, IsLongAfter S g (3 * j) ∧ (∀ i, i < j → ¬ IsLongAfter S g (3 * i)) ∧
      d = (vectorAfter S g (3 * j)).normalize ∧ g' = advance g (3 * (j + 1)) := by
  have hrun : ∀ tries, (direction tries : Draw G S (Vec3 S)).run g = .ok (d, g') ↔ _ :=
    fun tries => direction_run_eq_ok_iff (g := g) (n := 0)
  simp only [DirectionFound, hrun, Nat.zero_add]
  constructor
  · rintro ⟨tries, k, -, hfirst, rfl, rfl⟩
    obtain ⟨j, rfl⟩ := Nat.exists_eq_add_of_le' hfirst.pos
    have hlong := hfirst.long
    have hshort := hfirst.short
    simp only [Nat.add_sub_cancel, Nat.zero_add] at hlong hshort ⊢
    exact ⟨j, hlong, hshort, rfl, rfl⟩
  · rintro ⟨j, hlong, hshort, rfl, rfl⟩
    refine ⟨j + 1, j + 1, le_rfl, ⟨by omega, ?_, fun i hi => ?_⟩, rfl, rfl⟩
    · simpa using hlong
    · simpa using hshort i (by omega)

theorem exists_directionFound_iff :
    (∃ (d : Vec3 S) (g' : G), DirectionFound g d g') ↔ ∃ j, IsLongAfter S g (3 * j) := by
  constructor
  · rintro ⟨d, g', h⟩
    obtain ⟨j, hlong, -⟩ := directionFound_iff.1 h
    exact ⟨j, hlong⟩
  · rintro ⟨j, hlong⟩
    obtain ⟨d, g', h⟩ := exists_direction_run hlong (Nat.lt_succ_self j)
    exact ⟨d, g', j + 1, h⟩

end Draw

/-! ## Scalars that make a vector long enough -/

namespace Binary

variable {f : Format} {x : Binary f} {a : Vec3 (Binary f)} {word : UInt64}

theorem epsilon_lt_half_mul_half : Scalar.epsilon < (Scalar.half : Binary f) * Scalar.half := by
  cases f <;> decide +kernel

theorem epsilon_lt_mul_self (h : Scalar.half ≤ x) : Scalar.epsilon < x * x := by
  have h0 : (0 : Binary f) ≤ Scalar.half := by cases f <;> decide +kernel
  exact Binary.lt_of_lt_of_le epsilon_lt_half_mul_half (Binary.mul_self_le_mul_self_of_nonneg h0 h)

/-- One component of a half is enough. -/
theorem epsilon_lt_normSq (ha : a.All (·.isNumber = true))
    (h : Scalar.half ≤ a.x ∨ Scalar.half ≤ a.y ∨ Scalar.half ≤ a.z) :
    Scalar.epsilon < a.normSq := by
  have hx := Binary.mul_self_nonneg ha.1
  have hy := Binary.mul_self_nonneg ha.2.1
  have hz := Binary.mul_self_nonneg ha.2.2
  have hxy := Binary.add_nonneg hx hy
  have hle : a.x * a.x + a.y * a.y ≤ a.normSq := (le_add_of_nonneg hxy hz).1
  rcases h with h | h | h
  · exact Binary.lt_of_lt_of_le (epsilon_lt_mul_self h)
      (Binary.le_trans (le_add_of_nonneg hx hy).1 hle)
  · exact Binary.lt_of_lt_of_le (epsilon_lt_mul_self h)
      (Binary.le_trans (le_add_of_nonneg hy hx).2 hle)
  · exact Binary.lt_of_lt_of_le (epsilon_lt_mul_self h) (le_add_of_nonneg hz hxy).2

/-- Words of the upper half are read as a half or more. -/
theorem half_le_ofWord (h : 2 ^ 63 ≤ word.toNat) : Scalar.half ≤ ofWord f word := by
  have hhalf : Scalar.half ≤ ofWord f 0x8000000000000000 := by cases f <;> decide +kernel
  exact Binary.le_trans hhalf (ofWord_mono (UInt64.le_iff_toNat_le.2 h))

end Binary

/-! ## Words of a counter -/

namespace Counter

variable {f : Format} {c : Counter}

/-- The word after a number of words. -/
def wordAfter (c : Counter) (n : Nat) : UInt64 := c.word + UInt64.ofNat n * c.step

theorem advance_eq (n : Nat) (c : Counter) : advance c n = ⟨c.wordAfter n, c.step⟩ := by
  induction n generalizing c with
  | zero => simp [wordAfter]
  | succ n ih =>
    change advance (Counter.mk (c.word + c.step) c.step) n = _
    rw [ih, wordAfter, wordAfter, UInt64.ofNat_add, UInt64.add_mul, UInt64.add_assoc,
      UInt64.add_comm c.step]
    simp

theorem toNat_wordAfter (c : Counter) (n : Nat) :
    (c.wordAfter n).toNat = (c.word.toNat + n * c.step.toNat) % 2 ^ 64 := by
  simp [wordAfter, Nat.add_mod, Nat.mul_mod]

/-- Some number of steps is half a turn: the step is an odd multiple of a power of two. -/
theorem exists_half_turn {step : Nat} (hpos : step ≠ 0) (hlt : step < 2 ^ 64) :
    ∃ n, n ≤ 2 ^ 63 ∧ ∃ turns, n * step = turns * 2 ^ 64 + 2 ^ 63 := by
  obtain ⟨k, m, ⟨q, rfl⟩, rfl⟩ := Nat.exists_eq_two_pow_mul_odd hpos
  have hk : k < 64 := by
    have hle : 2 ^ k ≤ 2 ^ k * (2 * q + 1) := Nat.le_mul_of_pos_right _ (by omega)
    exact (Nat.pow_lt_pow_iff_right one_lt_two).1 (hle.trans_lt hlt)
  refine ⟨2 ^ (63 - k), Nat.pow_le_pow_right two_pos (by omega), q, ?_⟩
  calc 2 ^ (63 - k) * (2 ^ k * (2 * q + 1)) = 2 ^ (63 - k + k) * (2 * q + 1) := by ring
    _ = 2 ^ 63 * (2 * q + 1) := by rw [Nat.sub_add_cancel (by omega)]
    _ = q * 2 ^ 64 + 2 ^ 63 := by ring

/-- A counter that counts gets to the upper half. -/
theorem exists_upper (h : c.step ≠ 0) : ∃ n, n ≤ 2 ^ 63 ∧ 2 ^ 63 ≤ (c.wordAfter n).toNat := by
  have hstep : c.step.toNat ≠ 0 := fun h0 => h (UInt64.toNat_inj.1 h0)
  have hword := c.word.toNat_lt
  obtain ⟨n, hn, turns, hturn⟩ := exists_half_turn hstep c.step.toNat_lt
  by_cases hupper : 2 ^ 63 ≤ c.word.toNat
  · refine ⟨0, by omega, ?_⟩
    rw [toNat_wordAfter]
    omega
  · refine ⟨n, hn, ?_⟩
    rw [toNat_wordAfter, hturn]
    omega

/-! ## The search on a counter -/

/-- The vector of three words in a row, after a number of such vectors. -/
def triple (f : Format) (c : Counter) (j : Nat) : Vec3 (Binary f) :=
  ⟨Binary.ofWord f (c.wordAfter (3 * j)), Binary.ofWord f (c.wordAfter (3 * j + 1)),
    Binary.ofWord f (c.wordAfter (3 * j + 2))⟩

theorem isNumber_triple (c : Counter) (j : Nat) : (c.triple f j).All (·.isNumber = true) :=
  ⟨(Binary.isDraw_ofWord f _).isNumber, (Binary.isDraw_ofWord f _).isNumber,
    (Binary.isDraw_ofWord f _).isNumber⟩

theorem vectorAfter_eq (c : Counter) (j : Nat) :
    Draw.vectorAfter (Binary f) c (3 * j) = c.triple f j := by
  have hscalar : ∀ n, Draw.scalarAfter (Binary f) c n = Binary.ofWord f (c.wordAfter n) := by
    intro n
    rw [Draw.scalarAfter, advance_eq]
    rfl
  rw [Draw.vectorAfter, hscalar, hscalar, hscalar, triple]

theorem isLongAfter_iff (c : Counter) (j : Nat) :
    Draw.IsLongAfter (Binary f) c (3 * j) ↔ Scalar.epsilon < (c.triple f j).normSq := by
  rw [Draw.IsLongAfter, vectorAfter_eq]

/-- A word of the upper half makes the vector that it falls into long enough. -/
theorem isLongAfter_of_upper {n : Nat} (h : 2 ^ 63 ≤ (c.wordAfter n).toNat) :
    Draw.IsLongAfter (Binary f) c (3 * (n / 3)) := by
  rw [isLongAfter_iff]
  refine Binary.epsilon_lt_normSq (isNumber_triple c _) ?_
  have hhalf := Binary.half_le_ofWord (f := f) h
  have hplace : n = 3 * (n / 3) ∨ n = 3 * (n / 3) + 1 ∨ n = 3 * (n / 3) + 2 := by omega
  rcases hplace with hn | hn | hn <;> rw [hn] at hhalf
  · exact .inl hhalf
  · exact .inr (.inl hhalf)
  · exact .inr (.inr hhalf)

/-- A counter that does not count yields one vector again and again. -/
theorem triple_of_still (h : c.step = 0) (j : Nat) :
    c.triple f j = .uniform (Binary.ofWord f c.word) := by
  simp [triple, wordAfter, h, Vec3.uniform]

/-- A counter that counts is not searched in vain. -/
theorem exists_direction_run (h : c.step ≠ 0) : ∃ d c',
    (Draw.direction Draw.period : Draw Counter (Binary f) (Vec3 (Binary f))).run c =
      .ok (d, c') := by
  obtain ⟨n, hn, hupper⟩ := exists_upper h
  refine Draw.exists_direction_run (isLongAfter_of_upper hupper) ?_
  change n / 3 < 2 ^ 64
  omega

/-- On a counter that does not count the search ends with the first vector or not at all. -/
theorem directionFound_iff_of_still (h : c.step = 0) {d : Vec3 (Binary f)} {c' : Counter} :
    Draw.DirectionFound c d c' ↔
      Scalar.epsilon < (Vec3.uniform (Binary.ofWord f c.word)).normSq ∧
        (Draw.direction 1 : Draw Counter (Binary f) (Vec3 (Binary f))).run c = .ok (d, c') := by
  constructor
  · intro hfound
    obtain ⟨j, hlong, hshort, rfl, rfl⟩ := Draw.directionFound_iff.1 hfound
    -- were it not the first vector, the first one would be as long
    obtain rfl : j = 0 := by
      by_contra hj
      refine hshort 0 (Nat.pos_of_ne_zero hj) ?_
      rw [isLongAfter_iff, triple_of_still h] at hlong ⊢
      exact hlong
    refine ⟨?_, ?_⟩
    · rwa [isLongAfter_iff, triple_of_still h] at hlong
    · exact (Draw.direction_run_succ c 0 0).1 hlong
  · rintro ⟨-, hrun⟩
    exact ⟨1, hrun⟩

/-- The search for a direction on a counter (`random_direction` on a `StepRng`). If the counter
counts, the search ends, and does so before the counter has come back to its start. If it does not,
the search ends if and only if the one vector that it yields is long enough, and then with the first
vector. What is found is always the direction of the first vector that is long enough, and the
counter is left after that vector. -/
theorem direction_search (f : Format) (c : Counter) :
    (c.step ≠ 0 → ∃ d c',
      (Draw.direction Draw.period : Draw Counter (Binary f) (Vec3 (Binary f))).run c =
        .ok (d, c')) ∧
    (c.step = 0 →
      ((∃ (d : Vec3 (Binary f)) (c' : Counter), Draw.DirectionFound c d c') ↔
        Scalar.epsilon < (Vec3.uniform (Binary.ofWord f c.word)).normSq) ∧
      ∀ (d : Vec3 (Binary f)) (c' : Counter), Draw.DirectionFound c d c' →
        (Draw.direction 1 : Draw Counter (Binary f) (Vec3 (Binary f))).run c = .ok (d, c')) ∧
    ∀ (d : Vec3 (Binary f)) (c' : Counter), Draw.DirectionFound c d c' →
      ∃ j, Scalar.epsilon < (c.triple f j).normSq ∧
        (∀ i, i < j → ¬ Scalar.epsilon < (c.triple f i).normSq) ∧
        d = (c.triple f j).normalize ∧ c' = ⟨c.wordAfter (3 * (j + 1)), c.step⟩ := by
  refine ⟨exists_direction_run, fun hstill => ⟨?_, fun d c' hfound => ?_⟩, fun d c' hfound => ?_⟩
  · constructor
    · rintro ⟨d, c', hfound⟩
      exact ((directionFound_iff_of_still hstill).1 hfound).1
    · intro hlong
      refine Draw.exists_directionFound_iff.2 ⟨0, ?_⟩
      rwa [isLongAfter_iff, triple_of_still hstill]
  · exact ((directionFound_iff_of_still hstill).1 hfound).2
  · obtain ⟨j, hlong, hshort, rfl, rfl⟩ := Draw.directionFound_iff.1 hfound
    simp only [isLongAfter_iff] at hlong hshort
    exact ⟨j, hlong, hshort, by rw [vectorAfter_eq], advance_eq _ _⟩

/-- From zero a direction is found only if the counter counts, from half a turn also if it does
not. -/
theorem direction_search_zero :
    (∃ (d : Vec3 (Binary .single)) (c' : Counter), Draw.DirectionFound (Counter.mk 0 1) d c') ∧
    (¬ ∃ (d : Vec3 (Binary .single)) (c' : Counter), Draw.DirectionFound (Counter.mk 0 0) d c') ∧
    ∃ (d : Vec3 (Binary .single)) (c' : Counter),
      Draw.DirectionFound (Counter.mk 0x8000000000000000 0) d c' := by
  refine ⟨?_, ?_, ?_⟩
  · obtain ⟨d, c', hrun⟩ := (direction_search .single ⟨0, 1⟩).1 (by decide)
    exact ⟨d, c', Draw.period, hrun⟩
  · rw [((direction_search .single ⟨0, 0⟩).2.1 rfl).1]
    decide +kernel
  · rw [((direction_search .single ⟨0x8000000000000000, 0⟩).2.1 rfl).1]
    decide +kernel

end Counter

end HitTest
