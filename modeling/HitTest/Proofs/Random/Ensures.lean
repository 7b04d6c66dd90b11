import HitTest.Proofs.Vec3
import HitTest.Random.Counter
import HitTest.Random.Draw

/-!
# What draws yield

What is known of every scalar of a source is known of what is drawn from it. `Ensures` says so of a
draw: from every source of a kind it yields only values with one property and leaves a source of
that kind, and it fails only for reasons with another property. It is proved along the steps of the
draw. A kind can be all sources, or one source and what it becomes.
-/

namespace HitTest

namespace Draw

variable {G S α β : Type} {Q Q' : α → Prop} {R : β → Prop} {E E' : Fault S → Prop}

/-! ## One step after the other -/

section Bind

variable {g g' : G} {a : α}

/-- What a draw yields is passed on, and so is the source after it. -/
theorem run_bind_of_ok {x : Draw G S α} (k : α → Draw G S β) (h : x.run g = .ok (a, g')) :
    (x >>= k).run g = (k a).run g' := by
  rw [StateT.run_bind, h]
  rfl

/-- A draw fails with its first step. -/
theorem run_bind_of_error {x : Draw G S α} (k : α → Draw G S β) {e : Fault S}
    (h : x.run g = .error e) : (x >>= k).run g = .error e := by
  rw [StateT.run_bind, h]
  rfl

/-- A draw that succeeds has succeeded in its first step. -/
theorem exists_of_run_bind_eq_ok {x : Draw G S α} {k : α → Draw G S β} {b : β}
    (h : (x >>= k).run g = .ok (b, g')) :
    ∃ a g1, x.run g = .ok (a, g1) ∧ (k a).run g1 = .ok (b, g') := by
  cases hx : x.run g with
  | error e =>
    rw [run_bind_of_error k hx] at h
    cases h
  | ok r =>
    rw [run_bind_of_ok k hx] at h
    exact ⟨r.1, r.2, rfl, h⟩

/-- A draw that fails has failed in its first step or in what comes after it. -/
theorem run_bind_eq_error_cases {x : Draw G S α} {k : α → Draw G S β} {e : Fault S}
    (h : (x >>= k).run g = .error e) :
    x.run g = .error e ∨ ∃ a g1, x.run g = .ok (a, g1) ∧ (k a).run g1 = .error e := by
  cases hx : x.run g with
  | error e' =>
    rw [run_bind_of_error k hx] at h
    cases h
    exact .inl rfl
  | ok r =>
    rw [run_bind_of_ok k hx] at h
    exact .inr ⟨r.1, r.2, rfl, h⟩

/-- What does not draw leaves the source as it is. -/
theorem run_lift_bind_of_ok {x : Except (Fault S) α} (k : α → Draw G S β) (h : x = .ok a) :
    ((liftM x : Draw G S α) >>= k).run g = (k a).run g := by
  rw [h]
  rfl

end Bind

/-! ## Facts about what is drawn -/

variable {I : G → Prop}

/-- From every source of a kind a draw yields only values with one property, and leaves a source of
that kind, and it fails only for reasons with another property. -/
def Ensures (x : Draw G S α) (I : G → Prop) (Q : α → Prop) (E : Fault S → Prop) : Prop :=
  ∀ g : G, I g → (∃ a g', x.run g = .ok (a, g') ∧ I g' ∧ Q a) ∨ ∃ e, x.run g = .error e ∧ E e

namespace Ensures

/-- Nothing is asked of a value, of a source, or of a reason. -/
theorem any {x : Draw G S α} : x.Ensures (fun _ => True) (fun _ => True) (fun _ => True) := by
  intro g _
  cases h : x.run g with
  | error e => exact .inr ⟨e, rfl, trivial⟩
  | ok r => exact .inl ⟨r.1, r.2, rfl, trivial, trivial⟩

theorem pure {a : α} (h : Q a) : (Pure.pure a : Draw G S α).Ensures I Q E :=
  fun g hg => .inl ⟨a, g, rfl, hg, h⟩

theorem throw {e : Fault S} (h : E e) : (MonadExcept.throw e : Draw G S α).Ensures I Q E :=
  fun _ _ => .inr ⟨e, rfl, h⟩

/-- A draw that is followed by draws from what it yields. -/
theorem bind {x : Draw G S α} {k : α → Draw G S β} (hx : x.Ensures I Q E)
    (hk : ∀ a, Q a → (k a).Ensures I R E) : (x >>= k).Ensures I R E := by
  intro g hg
  rcases hx g hg with ⟨a, g', h, hg', ha⟩ | ⟨e, h, he⟩
  · rw [run_bind_of_ok k h]
    exact hk a ha g' hg'
  · exact .inr ⟨e, run_bind_of_error k h, he⟩

theorem mono {x : Draw G S α} (h : x.Ensures I Q E) (hQ : ∀ a, Q a → Q' a)
    (hE : ∀ e, E e → E' e) : x.Ensures I Q' E' := by
  intro g hg
  rcases h g hg with ⟨a, g', hr, hg', ha⟩ | ⟨e, hr, he⟩
  · exact .inl ⟨a, g', hr, hg', hQ a ha⟩
  · exact .inr ⟨e, hr, hE e he⟩

/-- What a draw ensures is so of what it yields and of the source that it leaves. -/
theorem of_ok {x : Draw G S α} (h : x.Ensures I Q E) {g g' : G} {a : α} (hg : I g)
    (hr : x.run g = .ok (a, g')) : I g' ∧ Q a := by
  rcases h g hg with ⟨b, g'', hb, hg'', hQ⟩ | ⟨e, he, -⟩
  · rw [hr] at hb
    cases hb
    exact ⟨hg'', hQ⟩
  · rw [hr] at he
    cases he

/-- A reason for which a draw fails has the property. -/
theorem of_error {x : Draw G S α} (h : x.Ensures I Q E) {g : G} {e : Fault S} (hg : I g)
    (hr : x.run g = .error e) : E e := by
  rcases h g hg with ⟨b, g', hb, -⟩ | ⟨e', he, hE⟩
  · rw [hr] at hb
    cases hb
  · rw [hr] at he
    cases he
    exact hE

/-- What a draw ensures of every value from every source comes on top. -/
theorem and {x : Draw G S α} (h : x.Ensures I Q E)
    (h' : x.Ensures (fun _ => True) Q' (fun _ => True)) : x.Ensures I (fun a => Q a ∧ Q' a) E := by
  intro g hg
  rcases h g hg with ⟨a, g', hr, hg', ha⟩ | he
  · exact .inl ⟨a, g', hr, hg', ha, (h'.of_ok trivial hr).2⟩
  · exact .inr he

end Ensures

/-! ## Scalars, vectors and directions -/

variable [ScalarSource G S] {D : S → Prop}

/-- Every scalar of a source of a kind has a property, and leaves a source of that kind. -/
def Yields (I : G → Prop) (D : S → Prop) : Prop :=
  ∀ g, I g → D (ScalarSource.next g).1 ∧ I (ScalarSource.next g : S × G).2

theorem scalar_ensures (h : Yields I D) : (scalar : Draw G S S).Ensures I D E :=
  fun g hg => .inl ⟨_, _, rfl, (h g hg).2, (h g hg).1⟩

theorem vector_ensures (h : Yields I D) : (vector : Draw G S (Vec3 S)).Ensures I (·.All D) E :=
  .bind (scalar_ensures h) fun _ hx => .bind (scalar_ensures h) fun _ hy =>
    .bind (scalar_ensures h) fun _ hz => .pure ⟨hx, hy, hz⟩

/-- There is always a next scalar. -/
theorem exists_scalar_run (g : G) : ∃ x g', (scalar : Draw G S S).run g = .ok (x, g') :=
  ⟨_, _, rfl⟩

theorem exists_vector_run (g : G) : ∃ v g', (vector : Draw G S (Vec3 S)).run g = .ok (v, g') :=
  ⟨_, _, rfl⟩

theorem scalar_run_of_constant {g : G} {x : S} (h : ScalarSource.next g = (x, g)) :
    (scalar : Draw G S S).run g = .ok (x, g) := congrArg Except.ok h

/-- A source that yields one scalar and stays as it is yields vectors of that scalar. -/
theorem vector_run_of_constant {g : G} {x : S} (h : ScalarSource.next g = (x, g)) :
    (vector : Draw G S (Vec3 S)).run g = .ok (.uniform x, g) := by
  have hscalar := scalar_run_of_constant h
  rw [vector, run_bind_of_ok _ hscalar, run_bind_of_ok _ hscalar, run_bind_of_ok _ hscalar]
  rfl

variable [Scalar S] {tries : Nat}

/-- What is drawn as a direction: that of a vector long enough to have one. -/
def IsDirection (D : S → Prop) (d : Vec3 S) : Prop :=
  ∃ v : Vec3 S, v.All D ∧ Scalar.epsilon < v.normSq ∧ d = v.normalize

/-- The only way in which the draw of a direction can fail is that the tries run out. -/
theorem direction_ensures (h : Yields I D) :
    (direction tries : Draw G S (Vec3 S)).Ensures I (IsDirection D) (· = .noDirection) := by
  induction tries with
  | zero => exact .throw rfl
  | succ tries ih =>
    refine .bind (vector_ensures h) fun v hv => ?_
    split
    · rename_i hlong
      exact .pure ⟨v, hv, hlong, rfl⟩
    · exact ih

/-- More tries find the same direction. -/
theorem direction_run_mono {r : Vec3 S × G} {more : Nat} (hle : tries ≤ more) : ∀ {g : G},
    (direction tries : Draw G S (Vec3 S)).run g = .ok r → (direction more).run g = .ok r := by
  induction tries generalizing more with
  | zero => rintro g ⟨⟩
  | succ tries ih =>
    obtain ⟨more, rfl⟩ := Nat.exists_eq_add_of_le' (Nat.lt_of_lt_of_le tries.succ_pos hle)
    intro g h
    rw [direction] at h ⊢
    obtain ⟨v, g1, hv, h⟩ := exists_of_run_bind_eq_ok h
    rw [run_bind_of_ok _ hv]
    split at h
    · rwa [if_pos ‹_›]
    · rw [if_neg ‹_›]
      exact ih (Nat.le_of_succ_le_succ hle) h

end Draw

/-- A counter whose words are spread over their range: the step is the golden section of the
range. -/
def Counter.spread : Counter := ⟨0x9e3779b97f4a7c15, 0x9e3779b97f4a7c15⟩

/-- A counter that does not count yields one scalar and stays as it is. -/
theorem Counter.next_constant {S : Type} [Scalar S] (word : UInt64) :
    (ScalarSource.next (Counter.mk word 0) : S × Counter) =
      (Scalar.ofBinary64 (unitFraction word), Counter.mk word 0) := by
  refine Prod.ext rfl ?_
  change Counter.mk (word + 0) 0 = _
  rw [UInt64.add_zero]

end HitTest
