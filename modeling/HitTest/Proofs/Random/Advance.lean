import HitTest.Proofs.Random.Ensures

/-!
# How far draws advance a source

The words of a source are numbered from the place where it is. What is drawn is a function of the
words at certain places, and every draw leaves the source a known number of words further on:
scalars and vectors always the same, a direction three for each vector that was looked at, up to the
first one that is long enough.
-/

namespace HitTest

variable {G : Type} [WordSource G]

/-- The source after a number of words. -/
def WordSource.advance (g : G) : Nat → G
  | 0 => g
  | n + 1 => advance (WordSource.next g).2 n

open WordSource (advance)

@[simp] theorem WordSource.advance_zero (g : G) : advance g 0 = g := rfl

@[simp] theorem WordSource.advance_advance (n : Nat) : ∀ (m : Nat) (g : G),
    advance (advance g m) n = advance g (m + n)
  | 0, g => by rw [advance_zero, Nat.zero_add]
  | m + 1, g => by
    rw [Nat.add_right_comm]
    exact advance_advance n m (WordSource.next g).2

theorem WordSource.next_advance (g : G) (n : Nat) :
    (WordSource.next (advance g n)).2 = advance g (n + 1) :=
  advance_advance 1 n g

namespace Draw

variable (S : Type) [Scalar S]

/-- The scalar that is read from the word after a number of words. -/
def scalarAfter (g : G) (n : Nat) : S := (ScalarSource.next (advance g n) : S × G).1

/-- The vector that is read from the three words after a number of words. -/
def vectorAfter (g : G) (n : Nat) : Vec3 S :=
  ⟨scalarAfter S g n, scalarAfter S g (n + 1), scalarAfter S g (n + 2)⟩

/-- Whether the vector after a number of words is long enough to have a direction. -/
def IsLongAfter (g : G) (n : Nat) : Prop := Scalar.epsilon < (vectorAfter S g n).normSq

instance (g : G) (n : Nat) : Decidable (IsLongAfter S g n) :=
  inferInstanceAs (Decidable (Scalar.epsilon < (vectorAfter S g n).normSq))

/-- The vectors after a number of words are taken one after the other, three words each; that with
the given number, counted from one, is the first that is long enough. -/
structure IsFirstLong (g : G) (n k : Nat) : Prop where
  pos : 1 ≤ k
  long : IsLongAfter S g (n + 3 * (k - 1))
  short : ∀ j, j < k - 1 → ¬ IsLongAfter S g (n + 3 * j)

variable {S} {g g' : G} {n tries : Nat}

/-- If the vector that comes first is too short, the search goes on after it. -/
theorem isFirstLong_succ_iff {k : Nat} (h : ¬ IsLongAfter S g n) (hk : 1 ≤ k) :
    IsFirstLong S g n (k + 1) ↔ IsFirstLong S g (n + 3) k := by
  have hplace : ∀ j, n + 3 * (j + 1) = n + 3 + 3 * j := fun j => by omega
  obtain ⟨k, rfl⟩ := Nat.exists_eq_add_of_le' hk
  constructor
  · rintro ⟨-, hlong, hshort⟩
    refine ⟨hk, ?_, fun j hj => ?_⟩
    · simpa [hplace] using hlong
    · have := hshort (j + 1) (by omega)
      rwa [hplace] at this
  · rintro ⟨-, hlong, hshort⟩
    refine ⟨by omega, ?_, fun j hj => ?_⟩
    · simpa [hplace] using hlong
    · cases j with
      | zero => exact h
      | succ j =>
        rw [hplace]
        exact hshort j (by omega)

/-- There is only one first vector that is long enough. -/
theorem IsFirstLong.unique {k k' : Nat} (h : IsFirstLong S g n k) (h' : IsFirstLong S g n k') :
    k = k' := by
  have hle : ∀ {i j : Nat}, IsFirstLong S g n i → IsFirstLong S g n j → i ≤ j := by
    intro i j hi hj
    have hpos := hj.pos
    exact Nat.le_of_not_lt fun hlt => hi.short (j - 1) (by omega) hj.long
  exact Nat.le_antisymm (hle h h') (hle h' h)

theorem scalar_run (g : G) (n : Nat) : (scalar : Draw G S S).run (advance g n) =
    .ok (scalarAfter S g n, advance g (n + 1)) := by
  rw [← WordSource.next_advance]
  rfl

theorem vector_run (g : G) (n : Nat) : (vector : Draw G S (Vec3 S)).run (advance g n) =
    .ok (vectorAfter S g n, advance g (n + 3)) := by
  rw [vector, run_bind_of_ok _ (scalar_run g n), run_bind_of_ok _ (scalar_run g (n + 1)),
    run_bind_of_ok _ (scalar_run g (n + 2))]
  rfl

/-- A vector that is long enough is the one whose direction is drawn, otherwise the search goes on
after it. -/
theorem direction_run_succ (g : G) (n tries : Nat) :
    (IsLongAfter S g n → (direction (tries + 1) : Draw G S (Vec3 S)).run (advance g n) =
      .ok ((vectorAfter S g n).normalize, advance g (n + 3))) ∧
    (¬ IsLongAfter S g n → (direction (tries + 1) : Draw G S (Vec3 S)).run (advance g n) =
      (direction tries : Draw G S (Vec3 S)).run (advance g (n + 3))) := by
  rw [direction, run_bind_of_ok _ (vector_run g n)]
  constructor
  · intro hlong
    rw [if_pos (show Scalar.epsilon < (vectorAfter S g n).normSq from hlong)]
    rfl
  · intro hshort
    rw [if_neg (show ¬ Scalar.epsilon < (vectorAfter S g n).normSq from hshort)]

/-- A direction is that of the first vector that is long enough, and takes the words up to the end
of that vector. It is found if the tries reach that far. -/
theorem direction_run_eq_ok_iff {d : Vec3 S} : ∀ {tries n : Nat},
    (direction tries : Draw G S (Vec3 S)).run (advance g n) = .ok (d, g') ↔
      ∃ k, k ≤ tries ∧ IsFirstLong S g n k ∧ g' = advance g (n + 3 * k) ∧
        d = (vectorAfter S g (n + 3 * (k - 1))).normalize
  | 0, n => by
    constructor
    · rintro ⟨⟩
    · rintro ⟨k, hk, hfirst, -⟩
      have hpos := hfirst.pos
      omega
  | tries + 1, n => by
    by_cases hlong : IsLongAfter S g n
    · rw [(direction_run_succ g n tries).1 hlong]
      have hfirst : IsFirstLong S g n 1 := ⟨Nat.le_refl 1, hlong, fun j hj => by omega⟩
      constructor
      · rintro ⟨⟩
        exact ⟨1, by omega, hfirst, rfl, rfl⟩
      · rintro ⟨k, -, hk, rfl, rfl⟩
        obtain rfl := hk.unique hfirst
        rfl
    · rw [(direction_run_succ g n tries).2 hlong, direction_run_eq_ok_iff]
      have hplace : ∀ k, n + 3 * (k + 1) = n + 3 + 3 * k := fun k => by omega
      have hlast : ∀ k, 1 ≤ k → n + 3 * (k + 1 - 1) = n + 3 + 3 * (k - 1) := fun k hk => by omega
      constructor
      · rintro ⟨k, hk, hfirst, rfl, rfl⟩
        have hpos := hfirst.pos
        exact ⟨k + 1, by omega, (isFirstLong_succ_iff hlong hpos).2 hfirst, by rw [hplace],
          by rw [hlast k hpos]⟩
      · rintro ⟨k, hk, hfirst, rfl, rfl⟩
        -- the first of the vectors is too short to be the one that is found
        obtain ⟨k, rfl⟩ := Nat.exists_eq_add_of_le' hfirst.pos
        have hpos : 1 ≤ k := by
          rcases Nat.eq_zero_or_pos k with rfl | h
          · exact absurd hfirst.long hlong
          · exact h
        exact ⟨k, by omega, (isFirstLong_succ_iff hlong hpos).1 hfirst, by rw [hplace],
          by rw [hlast k hpos]⟩

end Draw

end HitTest
