import HitTest.Proofs.Query.Growth
import HitTest.Proofs.Shape.Hull

/-!
# The points that boxes share (`Intersects<Aabb>`)

Two boxes share the box from the greater of their least to the lesser of their greatest corners. The
query for two boxes compares faces, and finds that the shared box is not empty; the test for
inclusion asks for two corners, which are points of the other box. So both are about points: the one
says that there is a point in both boxes, the other that there is none in only the second.
-/

namespace HitTest

open Binary hiding min max

namespace Box

section Axes

variable {S : Type} [Scalar S] {a b : Box S}

/-- What two boxes share. It is empty if they do not meet. -/
def overlap (a b : Box S) : Box S :=
  ⟨a.least.zipWith max b.least, a.greatest.zipWith min b.greatest⟩

theorem coord_overlap (a b : Box S) (i : Axis) :
    (a.overlap b).least.coord i = max (a.least.coord i) (b.least.coord i) ∧
      (a.overlap b).greatest.coord i = min (a.greatest.coord i) (b.greatest.coord i) := by
  cases i <;> exact ⟨rfl, rfl⟩

theorem meetsBox_iff_coord : a.meetsBox b = true ↔ (a.isEmpty = false ∧ b.isEmpty = false) ∧
    ∀ i, a.least.coord i ≤ b.greatest.coord i ∧ b.least.coord i ≤ a.greatest.coord i := by
  rw [Axis.forall_iff]
  simp only [meetsBox, Bool.and_eq_true, Bool.not_eq_true', decide_eq_true_eq, and_assoc]
  rfl

end Axes

variable {f : Format} {a b : Box (Binary f)} {p : Vec3 (Binary f)}

/-! ## The shared box -/

theorem IsNumeric.overlap (ha : a.IsNumeric) (hb : b.IsNumeric) : (a.overlap b).IsNumeric :=
  ⟨⟨isNumber_max ha.1.1 hb.1.1, isNumber_max ha.1.2.1 hb.1.2.1, isNumber_max ha.1.2.2 hb.1.2.2⟩,
    isNumber_min ha.2.1 hb.2.1, isNumber_min ha.2.2.1 hb.2.2.1, isNumber_min ha.2.2.2 hb.2.2.2⟩

/-- It has the points that are in both boxes. -/
theorem contains_overlap_iff (ha : a.IsNumeric) (hb : b.IsNumeric)
    (hp : p.All (·.isNumber = true)) :
    (a.overlap b).contains p = true ↔ a.contains p = true ∧ b.contains p = true := by
  rw [contains_iff_le_coord (ha.overlap hb) hp, contains_iff_le_coord ha hp,
    contains_iff_le_coord hb hp, ← forall_and]
  apply forall_congr'
  intro i
  rw [(coord_overlap a b i).1, (coord_overlap a b i).2,
    Binary.max_le_iff (Vec3.all_iff_coord.1 ha.1 i) (Vec3.all_iff_coord.1 hb.1 i),
    Binary.le_min_iff (Vec3.all_iff_coord.1 ha.2 i) (Vec3.all_iff_coord.1 hb.2 i)]
  exact and_and_and_comm

/-- The query for two boxes compares the faces that the shared box has. -/
theorem meetsBox_iff_overlap (ha : a.IsNumeric) (hb : b.IsNumeric) :
    a.meetsBox b = true ↔ (a.overlap b).isEmpty = false := by
  rw [meetsBox_iff_coord, isEmpty_eq_false_iff_le_coord ha, isEmpty_eq_false_iff_le_coord hb,
    isEmpty_eq_false_iff_le_coord (ha.overlap hb), ← forall_and, ← forall_and]
  apply forall_congr'
  intro i
  have hal := Vec3.all_iff_coord.1 ha.1 i
  have hbl := Vec3.all_iff_coord.1 hb.1 i
  have hag := Vec3.all_iff_coord.1 ha.2 i
  have hbg := Vec3.all_iff_coord.1 hb.2 i
  rw [(coord_overlap a b i).1, (coord_overlap a b i).2, Binary.max_le_iff hal hbl,
    Binary.le_min_iff hag hbg, Binary.le_min_iff hag hbg]
  tauto

/-! ## Points of a box -/

/-- Both corners of a box that is not empty are in it. -/
theorem containsBox_self (hb : b.IsNumeric) (hne : b.isEmpty = false) : b.containsBox b = true := by
  have hle := (isEmpty_eq_false_iff_le_coord hb).1 hne
  rw [containsBox, Bool.and_eq_true, contains_iff_le_coord hb hb.1, contains_iff_le_coord hb hb.2]
  exact ⟨fun i => ⟨Binary.le_refl (isNumber_left (hle i)), hle i⟩,
    fun i => ⟨hle i, Binary.le_refl (isNumber_right (hle i))⟩⟩

/-- A box is not empty if and only if it has a point. -/
theorem isEmpty_eq_false_iff_exists (hb : b.IsNumeric) : b.isEmpty = false ↔
    ∃ p : Vec3 (Binary f), p.All (·.isNumber = true) ∧ b.contains p = true := by
  constructor
  · intro hne
    have hself := containsBox_self hb hne
    rw [containsBox, Bool.and_eq_true] at hself
    exact ⟨b.least, hb.1, hself.1⟩
  · rintro ⟨p, hp, h⟩
    exact isEmpty_eq_false_of_contains hb hp h

theorem meetsBox_iff_exists_shared (ha : a.IsNumeric) (hb : b.IsNumeric) : a.meetsBox b = true ↔
    ∃ p : Vec3 (Binary f), p.All (·.isNumber = true) ∧ a.contains p = true ∧
      b.contains p = true := by
  rw [meetsBox_iff_overlap ha hb, isEmpty_eq_false_iff_exists (ha.overlap hb)]
  apply exists_congr
  intro p
  exact and_congr_right (contains_overlap_iff ha hb)

theorem containsBox_iff_forall (ha : a.IsNumeric) (hb : b.IsNumeric) (hne : b.isEmpty = false) :
    a.containsBox b = true ↔ ∀ p : Vec3 (Binary f), p.All (·.isNumber = true) →
      b.contains p = true → a.contains p = true := by
  constructor
  · intro h p _
    exact contains_of_within (le_coord_of_containsBox ha hb h)
  · intro h
    have hself := containsBox_self hb hne
    rw [containsBox, Bool.and_eq_true] at hself ⊢
    exact ⟨h b.least hb.1 hself.1, h b.greatest hb.2 hself.2⟩

/-- The box of a point has the faces that the point is compared with. -/
theorem contains_eq_meetsBox_point (ha : a.IsNumeric) (hp : p.All (·.isNumber = true)) :
    a.contains p = a.meetsBox (point p) := by
  have hpoint : (point p).isEmpty = false := by
    rw [isEmpty_eq_false_iff_le_coord ⟨hp, hp⟩]
    exact fun i => Binary.le_refl (Vec3.all_iff_coord.1 hp i)
  rw [Bool.eq_iff_iff, meetsBox_iff_coord]
  constructor
  · intro h
    exact ⟨⟨isEmpty_eq_false_of_contains ha hp h, hpoint⟩, (contains_iff_le_coord ha hp).1 h⟩
  · rintro ⟨-, h⟩
    exact (contains_iff_le_coord ha hp).2 h

/-! ## Queries about shared points -/

/-- The queries of boxes are exact, for corners that are any numbers: infinite, or the wrong way
round on some axes or all (`Intersects<Aabb>` and `Intersects<Vector3>` for `Aabb`). Two boxes meet
if and only if there is a point in both. A box that is not empty is inside of another one if and
only if its points are. A point meets what its bounding box meets. -/
theorem meetsBox_exact (ha : a.IsNumeric) (hb : b.IsNumeric) :
    ((Shape.box a).meets? (.box b) = some true ↔ ∃ p : Vec3 (Binary f),
      p.All (·.isNumber = true) ∧ a.contains p = true ∧ b.contains p = true) ∧
    (b.isEmpty = false → (a.containsBox b = true ↔ ∀ p : Vec3 (Binary f),
      p.All (·.isNumber = true) → b.contains p = true → a.contains p = true)) ∧
    ∀ p : Vec3 (Binary f), p.All (·.isNumber = true) →
      (Shape.box a).meets? (.point p) =
        (Shape.point p).bounds?.bind fun c => (Shape.box a).meets? (.box c) := by
  refine ⟨?_, containsBox_iff_forall ha hb, fun p hp => ?_⟩
  · exact Option.some_inj.trans (meetsBox_iff_exists_shared ha hb)
  · exact congrArg some (contains_eq_meetsBox_point ha hp)

/-- Two boxes without bounds share the edge in which their faces meet. A flat box is inside of one
that has it in a face. A point at infinity is not in a box that is the wrong way round on one
axis. -/
theorem meetsBox_exact_edge :
    (Shape.box ⟨⟨-infinity, 0, -infinity⟩, ⟨0, infinity, 1⟩⟩ : Shape Binary32).meets?
        (.box ⟨⟨0, -infinity, 0⟩, ⟨infinity, 0, infinity⟩⟩) = some true ∧
      (∀ p : Vec3 Binary32, p.All (·.isNumber = true) →
        (⟨⟨0, 0, 0⟩, ⟨0, infinity, 1⟩⟩ : Box Binary32).contains p = true →
          (⟨⟨-infinity, 0, -infinity⟩, ⟨0, infinity, 1⟩⟩ : Box Binary32).contains p = true) ∧
      (Shape.box ⟨⟨0, 1, 0⟩, ⟨infinity, 0, 0⟩⟩).meets? (.point (⟨infinity, 0, 0⟩ : Vec3 Binary32)) =
        (Shape.point (⟨infinity, 0, 0⟩ : Vec3 Binary32)).bounds?.bind fun c =>
          (Shape.box ⟨⟨0, 1, 0⟩, ⟨infinity, 0, 0⟩⟩).meets? (.box c) := by
  have hcorner : IsNumeric (⟨⟨-infinity, 0, -infinity⟩, ⟨0, infinity, 1⟩⟩ : Box Binary32) :=
    ⟨⟨rfl, rfl, rfl⟩, rfl, rfl, rfl⟩
  have hopposite : IsNumeric (⟨⟨0, -infinity, 0⟩, ⟨infinity, 0, infinity⟩⟩ : Box Binary32) :=
    ⟨⟨rfl, rfl, rfl⟩, rfl, rfl, rfl⟩
  have hflat : IsNumeric (⟨⟨0, 0, 0⟩, ⟨0, infinity, 1⟩⟩ : Box Binary32) :=
    ⟨⟨rfl, rfl, rfl⟩, rfl, rfl, rfl⟩
  have hwrong : IsNumeric (⟨⟨0, 1, 0⟩, ⟨infinity, 0, 0⟩⟩ : Box Binary32) :=
    ⟨⟨rfl, rfl, rfl⟩, rfl, rfl, rfl⟩
  obtain ⟨hmeets, -, -⟩ := meetsBox_exact hcorner hopposite
  obtain ⟨-, hinside, -⟩ := meetsBox_exact hcorner hflat
  obtain ⟨-, -, hpoint⟩ := meetsBox_exact hwrong hflat
  refine ⟨hmeets.2 ⟨⟨0, 0, 1⟩, ⟨rfl, rfl, rfl⟩, by decide, by decide⟩, ?_, ?_⟩
  · exact (hinside (by decide)).1 (by decide)
  · exact hpoint _ ⟨rfl, rfl, rfl⟩

end Box

end HitTest
