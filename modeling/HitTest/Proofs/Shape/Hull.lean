import HitTest.Proofs.Query.Inside
import Mathlib.Data.List.Basic

/-!
# The smallest box around points and boxes (`Aabb::from_points`, `Aabb::union`)

A box is grown from the empty one step by step, by points and by other boxes. Growing by a box that
is not empty is growing by its two corners, and growing by an empty box is doing nothing, so every
run of steps is a run over points, the corners. After such a run the faces of every axis are at the
least and at the greatest coordinate of the corners. All that is known about the box follows from
that: which points it contains, that it is the smallest one, and that neither the order of the steps
nor a repetition makes a difference.
-/

namespace HitTest

open Binary hiding min max

/-! ## Steps -/

namespace Box

theorem beq_iff_coord {S : Type} [BEq S] {a b : Box S} : (a == b) = true ↔
    ∀ i, (a.least.coord i == b.least.coord i) = true ∧
      (a.greatest.coord i == b.greatest.coord i) = true := by
  have h : (a == b) = true ↔ (a.least == b.least) = true ∧ (a.greatest == b.greatest) = true := by
    change instBEqBox.beq a b = true ↔ _
    unfold instBEqBox.beq
    simp
  rw [h, Vec3.beq_iff_coord, Vec3.beq_iff_coord, forall_and]

variable {S : Type} [Scalar S]

/-- A step by which a box grows: to contain a point, or to contain another box. -/
inductive Step (S : Type) where
  | point (p : Vec3 S)
  | box (b : Box S)

namespace Step

/-- Whether there is nothing to grow by. -/
def isEmpty : Step S → Bool
  | point _ => false
  | box b => b.isEmpty

/-- The points that a step grows a box by. -/
def corners : Step S → List (Vec3 S)
  | point p => [p]
  | box b => if b.isEmpty then [] else [b.least, b.greatest]

/-- Whether what a step grows by is inside of a box: the point, or both corners unless there is
nothing between them. -/
def IsInside (b : Box S) : Step S → Prop
  | point p => b.contains p = true
  | box c => c.isEmpty = false → b.containsBox c = true

theorem corners_eq_nil_iff {s : Step S} : s.corners = [] ↔ s.isEmpty = true := by
  cases s with
  | point p => simp [corners, isEmpty]
  | box b =>
    unfold corners isEmpty
    by_cases h : b.isEmpty = true <;> simp [h]

theorem isInside_iff {b : Box S} {s : Step S} :
    s.IsInside b ↔ ∀ p ∈ s.corners, b.contains p = true := by
  cases s with
  | point p => simp [IsInside, corners]
  | box c =>
    unfold IsInside corners containsBox
    by_cases h : c.isEmpty = true <;> simp [h]

end Step

/-- The box grown by a step. -/
def grow (b : Box S) : Step S → Box S
  | .point p => b.expandBy p
  | .box c => b.expandByBox c

/-- The box that is grown from the empty one by one step after the other. -/
def hull (steps : List (Step S)) : Box S := steps.foldl grow empty

/-- A step is a run over its corners. -/
theorem grow_eq_foldl_corners (b : Box S) (s : Step S) :
    b.grow s = s.corners.foldl expandBy b := by
  cases s with
  | point p => rfl
  | box c =>
    unfold grow expandByBox Step.corners
    by_cases h : c.isEmpty = true <;> simp [h]

theorem foldl_grow (steps : List (Step S)) (b : Box S) :
    steps.foldl grow b = (steps.flatMap Step.corners).foldl expandBy b := by
  induction steps generalizing b with
  | nil => rfl
  | cons s steps ih =>
    rw [List.foldl_cons, ih, grow_eq_foldl_corners, List.flatMap_cons, List.foldl_append]

theorem hull_eq_ofPoints (steps : List (Step S)) :
    hull steps = ofPoints (steps.flatMap Step.corners) := foldl_grow steps empty

theorem union_eq_hull (bs : List (Box S)) : union bs = hull (bs.map .box) := by
  unfold union hull
  rw [List.foldl_map]
  rfl

theorem ofPoints_eq_hull (ps : List (Vec3 S)) : ofPoints ps = hull (ps.map .point) := by
  unfold ofPoints hull
  rw [List.foldl_map]
  rfl

/-! ## Runs by axes -/

theorem coord_foldl_expandBy (ps : List (Vec3 S)) (b : Box S) (i : Axis) :
    (ps.foldl expandBy b).least.coord i = (ps.map (·.coord i)).foldl min (b.least.coord i) ∧
      (ps.foldl expandBy b).greatest.coord i =
        (ps.map (·.coord i)).foldl max (b.greatest.coord i) := by
  induction ps generalizing b with
  | nil => exact ⟨rfl, rfl⟩
  | cons p ps ih =>
    obtain ⟨hleast, hgreatest⟩ := ih (b.expandBy p)
    rw [List.foldl_cons, hleast, hgreatest]
    cases i <;> exact ⟨rfl, rfl⟩

theorem coord_empty (i : Axis) :
    (empty : Box S).least.coord i = Scalar.infinity ∧
      (empty : Box S).greatest.coord i = -Scalar.infinity := by
  cases i <;> exact ⟨rfl, rfl⟩

theorem contains_iff_coord {b : Box S} {p : Vec3 S} : b.contains p = true ↔
    ∀ i, ¬ p.coord i < b.least.coord i ∧ ¬ b.greatest.coord i < p.coord i := by
  rw [Axis.forall_iff]
  simp only [contains, excludes, Bool.not_eq_true', Bool.or_eq_false_iff, decide_eq_false_iff_not,
    and_assoc]
  rfl

theorem isEmpty_eq_false_iff_coord {b : Box S} : b.isEmpty = false ↔
    ∀ i, ¬ b.greatest.coord i < b.least.coord i := by
  rw [Axis.forall_iff]
  simp only [isEmpty, Bool.or_eq_false_iff, decide_eq_false_iff_not, and_assoc]
  rfl

end Box

/-! ## The least and the greatest of some numbers -/

section Fold

variable {α : Type} {op : α → α → α} {P R : α → Prop} {a : α} {xs : List α}

/-- What chooses one of two also chooses one of many. -/
theorem foldl_mem_of_choice (hop : ∀ a b, P a → P b → op a b = a ∨ op a b = b) (ha : P a)
    (hxs : ∀ x ∈ xs, P x) : xs.foldl op a ∈ a :: xs := by
  induction xs generalizing a with
  | nil => simp
  | cons x xs ih =>
    obtain ⟨hx, hxs⟩ := List.forall_mem_cons.1 hxs
    rw [List.foldl_cons]
    rcases hop a x ha hx with e | e
    · rw [e]
      have h := ih ha hxs
      simp only [List.mem_cons] at h ⊢
      tauto
    · rw [e]
      exact List.mem_cons_of_mem _ (ih hx hxs)

/-- What holds of the choice of two if it holds of both, holds of the choice of many if it holds of
them all. -/
theorem foldl_iff_forall_of_choice (hop : ∀ a b, P a → P b → op a b = a ∨ op a b = b)
    (hR : ∀ a b, P a → P b → (R (op a b) ↔ R a ∧ R b)) (ha : P a) (hxs : ∀ x ∈ xs, P x) :
    R (xs.foldl op a) ↔ R a ∧ ∀ x ∈ xs, R x := by
  induction xs generalizing a with
  | nil => simp
  | cons x xs ih =>
    obtain ⟨hx, hxs⟩ := List.forall_mem_cons.1 hxs
    have hax : P (op a x) := by
      rcases hop a x ha hx with e | e
      · rwa [e]
      · rwa [e]
    rw [List.foldl_cons, ih hax hxs, hR a x ha hx, List.forall_mem_cons, and_assoc]

end Fold

variable {f : Format}

namespace Binary

variable {xs ys : List (Binary f)} {q x y z : Binary f}

theorem min_choice (hx : x.isNumber = true) (hy : y.isNumber = true) :
    Min.min x y = x ∨ Min.min x y = y := by
  rw [min_eq hx hy]
  split
  · exact .inr rfl
  · exact .inl rfl

theorem max_choice (hx : x.isNumber = true) (hy : y.isNumber = true) :
    Max.max x y = x ∨ Max.max x y = y := by
  rw [max_eq hx hy]
  split
  · exact .inr rfl
  · exact .inl rfl

/-- The least of some numbers, or infinity if there is none. -/
def leastOf (xs : List (Binary f)) : Binary f := xs.foldl Min.min infinity

/-- The greatest of some numbers, or minus infinity if there is none. -/
def greatestOf (xs : List (Binary f)) : Binary f := xs.foldl Max.max (-infinity)

section Ends

variable (hxs : ∀ x ∈ xs, x.isNumber = true)

include hxs

theorem le_leastOf_iff (hz : z.isNumber = true) : z ≤ leastOf xs ↔ ∀ x ∈ xs, z ≤ x := by
  have h := foldl_iff_forall_of_choice (R := (z ≤ ·)) (fun _ _ => min_choice)
    (fun _ _ => Binary.le_min_iff) (rfl : (infinity : Binary f).isNumber = true) hxs
  exact h.trans (and_iff_right (le_signedInfinity hz))

theorem greatestOf_le_iff (hz : z.isNumber = true) : greatestOf xs ≤ z ↔ ∀ x ∈ xs, x ≤ z := by
  have h := foldl_iff_forall_of_choice (R := (· ≤ z)) (fun _ _ => max_choice)
    (fun _ _ => Binary.max_le_iff) (rfl : (-infinity : Binary f).isNumber = true) hxs
  exact h.trans (and_iff_right (signedInfinity_le hz))

/-- The least of some numbers is one of them, or infinity. -/
theorem leastOf_mem_cons : leastOf xs ∈ infinity :: xs :=
  foldl_mem_of_choice (fun _ _ => min_choice) rfl hxs

theorem greatestOf_mem_cons : greatestOf xs ∈ -infinity :: xs :=
  foldl_mem_of_choice (fun _ _ => max_choice) rfl hxs

theorem isNumber_leastOf : (leastOf xs).isNumber = true := by
  rcases List.mem_cons.1 (leastOf_mem_cons hxs) with e | h
  · rw [e]
    rfl
  · exact hxs _ h

theorem isNumber_greatestOf : (greatestOf xs).isNumber = true := by
  rcases List.mem_cons.1 (greatestOf_mem_cons hxs) with e | h
  · rw [e]
    rfl
  · exact hxs _ h

theorem leastOf_le (hx : x ∈ xs) : leastOf xs ≤ x := by
  have hnum := isNumber_leastOf hxs
  exact (le_leastOf_iff hxs hnum).1 (Binary.le_refl hnum) x hx

theorem le_greatestOf (hx : x ∈ xs) : x ≤ greatestOf xs := by
  have hnum := isNumber_greatestOf hxs
  exact (greatestOf_le_iff hxs hnum).1 (Binary.le_refl hnum) x hx

theorem leastOf_le_greatestOf (hne : xs ≠ []) : leastOf xs ≤ greatestOf xs := by
  obtain ⟨x, hx⟩ := List.exists_mem_of_ne_nil xs hne
  exact Binary.le_trans (leastOf_le hxs hx) (le_greatestOf hxs hx)

/-- The least of some numbers is one of them, unless there is none. -/
theorem leastOf_mem (hne : xs ≠ []) : leastOf xs ∈ xs := by
  rcases List.mem_cons.1 (leastOf_mem_cons hxs) with e | h
  · obtain ⟨x, hx⟩ := List.exists_mem_of_ne_nil xs hne
    have hinf := leastOf_le hxs hx
    rw [e] at hinf ⊢
    rwa [← eq_infinity_of_le hinf]
  · exact h

theorem greatestOf_mem (hne : xs ≠ []) : greatestOf xs ∈ xs := by
  rcases List.mem_cons.1 (greatestOf_mem_cons hxs) with e | h
  · obtain ⟨x, hx⟩ := List.exists_mem_of_ne_nil xs hne
    have hinf := le_greatestOf hxs hx
    rw [e] at hinf ⊢
    rwa [← eq_neg_infinity_of_le hinf]
  · exact h

end Ends

/-- A number between the least and the greatest of some numbers. -/
structure Spans (xs : List (Binary f)) (q : Binary f) : Prop where
  lower : ∃ l ∈ xs, (∀ x ∈ xs, l ≤ x) ∧ l ≤ q
  upper : ∃ g ∈ xs, (∀ x ∈ xs, x ≤ g) ∧ q ≤ g

theorem spans_iff (hxs : ∀ x ∈ xs, x.isNumber = true) (hne : xs ≠ []) :
    Spans xs q ↔ leastOf xs ≤ q ∧ q ≤ greatestOf xs := by
  constructor
  · rintro ⟨⟨l, hl, -, hlq⟩, g, hg, -, hqg⟩
    exact ⟨Binary.le_trans (leastOf_le hxs hl) hlq, Binary.le_trans hqg (le_greatestOf hxs hg)⟩
  · rintro ⟨hlq, hqg⟩
    exact ⟨⟨_, leastOf_mem hxs hne, fun _ => leastOf_le hxs, hlq⟩,
      _, greatestOf_mem hxs hne, fun _ => le_greatestOf hxs, hqg⟩

end Binary

namespace Box

variable {ps ps' : List (Vec3 (Binary f))} {q : Vec3 (Binary f)}

/-! ## The box around points -/

theorem coord_ofPoints (ps : List (Vec3 (Binary f))) (i : Axis) :
    (ofPoints ps).least.coord i = leastOf (ps.map (·.coord i)) ∧
      (ofPoints ps).greatest.coord i = greatestOf (ps.map (·.coord i)) := by
  have h := coord_foldl_expandBy ps empty i
  rwa [(coord_empty i).1, (coord_empty i).2] at h

theorem isNumber_coord (hps : ∀ p ∈ ps, p.All (·.isNumber = true)) (i : Axis) :
    ∀ x ∈ ps.map (·.coord i), x.isNumber = true := by
  intro x hx
  obtain ⟨p, hp, rfl⟩ := List.mem_map.1 hx
  exact Vec3.all_iff_coord.1 (hps p hp) i

theorem isNumeric_ofPoints (hps : ∀ p ∈ ps, p.All (·.isNumber = true)) :
    (ofPoints ps).IsNumeric := by
  constructor
  · rw [Vec3.all_iff_coord]
    intro i
    rw [(coord_ofPoints ps i).1]
    exact isNumber_leastOf (isNumber_coord hps i)
  · rw [Vec3.all_iff_coord]
    intro i
    rw [(coord_ofPoints ps i).2]
    exact isNumber_greatestOf (isNumber_coord hps i)

/-- The faces are in order as soon as there is a point. -/
theorem ofPoints_le (hps : ∀ p ∈ ps, p.All (·.isNumber = true)) (hne : ps ≠ []) (i : Axis) :
    (ofPoints ps).least.coord i ≤ (ofPoints ps).greatest.coord i := by
  rw [(coord_ofPoints ps i).1, (coord_ofPoints ps i).2]
  exact leastOf_le_greatestOf (isNumber_coord hps i) (by simpa using hne)

theorem isEmpty_eq_false_iff_le_coord {b : Box (Binary f)} (hb : b.IsNumeric) :
    b.isEmpty = false ↔ ∀ i, b.least.coord i ≤ b.greatest.coord i := by
  rw [isEmpty_eq_false_iff_coord]
  apply forall_congr'
  intro i
  rw [Binary.not_lt (Vec3.all_iff_coord.1 hb.2 i) (Vec3.all_iff_coord.1 hb.1 i)]

theorem contains_iff_le_coord {b : Box (Binary f)} (hb : b.IsNumeric)
    (hq : q.All (·.isNumber = true)) :
    b.contains q = true ↔ ∀ i, b.least.coord i ≤ q.coord i ∧ q.coord i ≤ b.greatest.coord i := by
  rw [contains_iff_coord]
  apply forall_congr'
  intro i
  have hqi := Vec3.all_iff_coord.1 hq i
  rw [Binary.not_lt hqi (Vec3.all_iff_coord.1 hb.1 i),
    Binary.not_lt (Vec3.all_iff_coord.1 hb.2 i) hqi]

theorem not_contains_empty (hq : q.All (·.isNumber = true)) :
    ¬ (empty : Box (Binary f)).contains q = true := by
  intro h
  have hnum : (empty : Box (Binary f)).IsNumeric := ⟨⟨rfl, rfl, rfl⟩, rfl, rfl, rfl⟩
  obtain ⟨hlower, hupper⟩ := (contains_iff_le_coord hnum hq).1 h .x
  have e : q.x = infinity := eq_infinity_of_le hlower
  have e' : q.x = -infinity := eq_neg_infinity_of_le hupper
  rw [e] at e'
  cases e'

/-- What is inside of the box around points is, on every axis, between two of them. -/
theorem contains_ofPoints_iff (hps : ∀ p ∈ ps, p.All (·.isNumber = true))
    (hq : q.All (·.isNumber = true)) : (ofPoints ps).contains q = true ↔
      ps ≠ [] ∧ ∀ i, Spans (ps.map (·.coord i)) (q.coord i) := by
  rcases eq_or_ne ps [] with rfl | hne
  · simp only [ne_eq, not_true_eq_false, false_and, iff_false]
    exact not_contains_empty hq
  · rw [contains_iff_le_coord (isNumeric_ofPoints hps) hq, and_iff_right hne]
    apply forall_congr'
    intro i
    rw [spans_iff (isNumber_coord hps i) (by simpa using hne), (coord_ofPoints ps i).1,
      (coord_ofPoints ps i).2]

/-- No box around the points is smaller. -/
theorem ofPoints_within (hps : ∀ p ∈ ps, p.All (·.isNumber = true)) {b : Box (Binary f)}
    (hb : b.IsNumeric) (h : ∀ p ∈ ps, b.contains p = true) (i : Axis) :
    b.least.coord i ≤ (ofPoints ps).least.coord i ∧
      (ofPoints ps).greatest.coord i ≤ b.greatest.coord i := by
  have hbetween : ∀ p ∈ ps, b.least.coord i ≤ p.coord i ∧ p.coord i ≤ b.greatest.coord i :=
    fun p hp => (contains_iff_le_coord hb (hps p hp)).1 (h p hp) i
  have hnum := isNumber_coord hps i
  rw [(coord_ofPoints ps i).1, (coord_ofPoints ps i).2,
    le_leastOf_iff hnum (Vec3.all_iff_coord.1 hb.1 i),
    greatestOf_le_iff hnum (Vec3.all_iff_coord.1 hb.2 i)]
  constructor
  · intro x hx
    obtain ⟨p, hp, rfl⟩ := List.mem_map.1 hx
    exact (hbetween p hp).1
  · intro x hx
    obtain ⟨p, hp, rfl⟩ := List.mem_map.1 hx
    exact (hbetween p hp).2

theorem contains_of_mem (hps : ∀ p ∈ ps, p.All (·.isNumber = true)) (hq : q ∈ ps) :
    (ofPoints ps).contains q = true := by
  rw [contains_iff_le_coord (isNumeric_ofPoints hps) (hps q hq)]
  intro i
  have hqi : q.coord i ∈ ps.map (·.coord i) := List.mem_map_of_mem hq
  rw [(coord_ofPoints ps i).1, (coord_ofPoints ps i).2]
  exact ⟨leastOf_le (isNumber_coord hps i) hqi, le_greatestOf (isNumber_coord hps i) hqi⟩

/-- What is inside of a box is inside of one whose faces are on the outer sides. -/
theorem contains_of_within {b c : Box (Binary f)}
    (h : ∀ i, b.least.coord i ≤ c.least.coord i ∧ c.greatest.coord i ≤ b.greatest.coord i)
    (hq : c.contains q = true) : b.contains q = true := by
  rw [contains_iff_coord] at hq ⊢
  intro i
  obtain ⟨hlower, hupper⟩ := h i
  exact ⟨fun hlt => (hq i).1 (Binary.lt_of_lt_of_le hlt hlower),
    fun hlt => (hq i).2 (Binary.lt_of_le_of_lt hupper hlt)⟩

theorem le_coord_of_containsBox {b c : Box (Binary f)} (hb : b.IsNumeric) (hc : c.IsNumeric)
    (h : b.containsBox c = true) (i : Axis) :
    b.least.coord i ≤ c.least.coord i ∧ c.greatest.coord i ≤ b.greatest.coord i := by
  rw [containsBox, Bool.and_eq_true, contains_iff_le_coord hb hc.1,
    contains_iff_le_coord hb hc.2] at h
  exact ⟨(h.1 i).1, (h.2 i).2⟩

theorem isInside_ofPoints (hps : ∀ p ∈ ps, p.All (·.isNumber = true)) {b : Box (Binary f)}
    (hb : b.IsNumeric) (h : ∀ p ∈ ps, b.contains p = true) :
    (Step.box (ofPoints ps)).IsInside b := by
  intro hne
  have hnum := isNumeric_ofPoints hps
  have hordered := (isEmpty_eq_false_iff_le_coord hnum).1 hne
  rw [containsBox, Bool.and_eq_true, contains_iff_le_coord hb hnum.1,
    contains_iff_le_coord hb hnum.2]
  constructor
  · intro i
    obtain ⟨hlower, hupper⟩ := ofPoints_within hps hb h i
    exact ⟨hlower, Binary.le_trans (hordered i) hupper⟩
  · intro i
    obtain ⟨hlower, hupper⟩ := ofPoints_within hps hb h i
    exact ⟨Binary.le_trans hlower (hordered i), hupper⟩

/-- Boxes around points that contain each other's points are the same, up to signs of zeros. -/
theorem ofPoints_beq (hps : ∀ p ∈ ps, p.All (·.isNumber = true))
    (hps' : ∀ p ∈ ps', p.All (·.isNumber = true)) (h : ∀ p ∈ ps, (ofPoints ps').contains p = true)
    (h' : ∀ p ∈ ps', (ofPoints ps).contains p = true) :
    (ofPoints ps == ofPoints ps') = true := by
  rw [beq_iff_coord]
  intro i
  obtain ⟨hlower, hupper⟩ := ofPoints_within hps (isNumeric_ofPoints hps') h i
  obtain ⟨hlower', hupper'⟩ := ofPoints_within hps' (isNumeric_ofPoints hps) h' i
  exact ⟨beq_of_le_of_le hlower' hlower, beq_of_le_of_le hupper hupper'⟩

/-! ## The box around points and boxes -/

namespace Step

/-- There is no coordinate that is not a number. -/
def IsNumeric : Step (Binary f) → Prop
  | point p => p.All (·.isNumber = true)
  | box b => b.IsNumeric

theorem IsNumeric.corners {s : Step (Binary f)} (hs : s.IsNumeric) :
    ∀ p ∈ s.corners, p.All (·.isNumber = true) := by
  cases s with
  | point p =>
    intro q hq
    obtain rfl := List.mem_singleton.1 hq
    exact hs
  | box b =>
    intro q hq
    simp only [Step.corners, List.mem_ite_nil_left, List.mem_cons, List.not_mem_nil,
      or_false] at hq
    rcases hq with ⟨-, rfl | rfl⟩
    · exact hs.1
    · exact hs.2

end Step

variable {steps others : List (Step (Binary f))}

theorem isNumber_corners (h : ∀ s ∈ steps, s.IsNumeric) :
    ∀ p ∈ steps.flatMap Step.corners, p.All (·.isNumber = true) := by
  intro p hp
  obtain ⟨s, hs, hps⟩ := List.mem_flatMap.1 hp
  exact (h s hs).corners p hps

theorem flatMap_corners_ne_nil_iff :
    steps.flatMap Step.corners ≠ [] ↔ ∃ s ∈ steps, s.isEmpty = false := by
  simp only [ne_eq, List.flatMap_eq_nil_iff, Step.corners_eq_nil_iff]
  push Not
  simp

theorem forall_isInside_iff {b : Box (Binary f)} : (∀ s ∈ steps, s.IsInside b) ↔
    ∀ p ∈ steps.flatMap Step.corners, b.contains p = true := by
  simp only [Step.isInside_iff, List.mem_flatMap]
  constructor
  · rintro h p ⟨s, hs, hp⟩
    exact h s hs p hp
  · intro h s hs p hp
    exact h p ⟨s, hs, hp⟩

/-- Points may be put into boxes of their own first. -/
theorem union_map_ofPoints_beq {chunks : List (List (Vec3 (Binary f)))}
    (h : ∀ ps ∈ chunks, ∀ p ∈ ps, p.All (·.isNumber = true)) :
    (union (chunks.map ofPoints) == ofPoints chunks.flatten) = true := by
  have hflatten : ∀ p ∈ chunks.flatten, p.All (·.isNumber = true) := by
    intro p hp
    obtain ⟨ps, hps, hp⟩ := List.mem_flatten.1 hp
    exact h ps hps p hp
  have hsteps : ∀ s ∈ (chunks.map ofPoints).map Step.box, s.IsNumeric := by
    simp only [List.map_map, List.forall_mem_map]
    exact fun ps hps => isNumeric_ofPoints (h ps hps)
  rw [union_eq_hull, hull_eq_ofPoints]
  apply ofPoints_beq (isNumber_corners hsteps) hflatten
  · -- the box around a part is inside of the box around all, so its corners are
    rw [← forall_isInside_iff]
    simp only [List.map_map, List.forall_mem_map]
    intro ps hps
    apply isInside_ofPoints (h ps hps) (isNumeric_ofPoints hflatten)
    exact fun p hp => contains_of_mem hflatten (List.mem_flatten_of_mem hps hp)
  · -- a point is inside of the box around its part, which is around that box's corners
    intro p hp
    obtain ⟨ps, hps, hp⟩ := List.mem_flatten.1 hp
    have hne : (ofPoints ps).isEmpty = false :=
      isEmpty_eq_false_of_contains (isNumeric_ofPoints (h ps hps)) (h ps hps p hp)
        (contains_of_mem (h ps hps) hp)
    have hcorners := isNumber_corners hsteps
    have hbox : (ofPoints _).containsBox (ofPoints ps) = true :=
      forall_isInside_iff.2 (fun p => contains_of_mem hcorners) (.box (ofPoints ps))
        (List.mem_map_of_mem (List.mem_map_of_mem hps)) hne
    have hin := le_coord_of_containsBox (isNumeric_ofPoints hcorners)
      (isNumeric_ofPoints (h ps hps)) hbox
    exact contains_of_within hin (contains_of_mem (h ps hps) hp)

/-- The box grown from the empty one by points and boxes, of which neither the order nor the number
matters, is the smallest one around them: it is left empty where there is nothing to grow by, and is
else, on every axis, from the least to the greatest coordinate of the points and corners
(`Aabb::from_points`, `Aabb::union`). Growing by the boxes around parts of a list of points is
growing by the points. -/
theorem hull_smallest :
    (∀ steps : List (Step (Binary f)), (∀ s ∈ steps, s.IsNumeric) →
      ((∀ s ∈ steps, s.isEmpty = true) → hull steps = empty) ∧
      ((∃ s ∈ steps, s.isEmpty = false) →
        ∀ i, (hull steps).least.coord i ≤ (hull steps).greatest.coord i) ∧
      (∀ q : Vec3 (Binary f), q.All (·.isNumber = true) →
        ((hull steps).contains q = true ↔ (∃ s ∈ steps, s.isEmpty = false) ∧
          ∀ i, Spans ((steps.flatMap Step.corners).map (·.coord i)) (q.coord i))) ∧
      (∀ others : List (Step (Binary f)), (∀ s, s ∈ others ↔ s ∈ steps) →
        (hull others == hull steps) = true) ∧
      ∀ b : Box (Binary f), b.IsNumeric → (∀ s ∈ steps, s.IsInside b) →
        (Step.box (hull steps)).IsInside b ∧
          ∀ q : Vec3 (Binary f), (hull steps).contains q = true → b.contains q = true) ∧
    ∀ chunks : List (List (Vec3 (Binary f))),
      (∀ ps ∈ chunks, ∀ p ∈ ps, p.All (·.isNumber = true)) →
      (union (chunks.map ofPoints) == ofPoints chunks.flatten) = true := by
  refine ⟨fun steps hsteps => ?_, fun chunks => union_map_ofPoints_beq⟩
  have hnum := isNumber_corners hsteps
  simp only [hull_eq_ofPoints, ← flatMap_corners_ne_nil_iff]
  refine ⟨?nothing, ?ordered, ?contains, ?order, ?smallest⟩
  case nothing =>
    intro h
    have hnil : steps.flatMap Step.corners = [] :=
      List.flatMap_eq_nil_iff.2 fun s hs => Step.corners_eq_nil_iff.2 (h s hs)
    rw [hnil]
    rfl
  case ordered => exact ofPoints_le hnum
  case contains => exact fun q => contains_ofPoints_iff hnum
  case order =>
    intro others h
    have hmem : ∀ p, p ∈ others.flatMap Step.corners ↔ p ∈ steps.flatMap Step.corners := by
      simp only [List.mem_flatMap, h, implies_true]
    have hnum' : ∀ p ∈ others.flatMap Step.corners, p.All (·.isNumber = true) :=
      fun p hp => hnum p ((hmem p).1 hp)
    exact ofPoints_beq hnum' hnum (fun p hp => contains_of_mem hnum ((hmem p).1 hp))
      fun p hp => contains_of_mem hnum' ((hmem p).2 hp)
  case smallest =>
    intro b hb h
    have hin := forall_isInside_iff.1 h
    exact ⟨isInside_ofPoints hnum hb hin,
      fun q hq => contains_of_within (ofPoints_within hnum hb hin) hq⟩

/-- Boxes with the corners the wrong way round leave the box empty. A point at infinity and a flat
box make one that is flat, in either order and also when repeated. -/
theorem hull_smallest_flat :
    hull [.box ⟨⟨1, 1, 1⟩, 0⟩, .box (empty : Box Binary32)] = empty ∧
      (∀ i, (hull [.point ⟨infinity, 0, 0⟩, .box ⟨0, ⟨1, 1, 0⟩⟩] : Box Binary32).least.coord i ≤
        (hull [.point ⟨infinity, 0, 0⟩, .box ⟨0, ⟨1, 1, 0⟩⟩]).greatest.coord i) ∧
      Spans [infinity, 0, (1 : Binary32)] (ofNat 2) ∧
      ((hull [.box ⟨0, ⟨1, 1, 0⟩⟩, .point ⟨infinity, 0, 0⟩, .box ⟨0, ⟨1, 1, 0⟩⟩] : Box Binary32) ==
        hull [.point ⟨infinity, 0, 0⟩, .box ⟨0, ⟨1, 1, 0⟩⟩]) = true ∧
      (⟨0, ⟨infinity, 1, 1⟩⟩ : Box Binary32).containsBox
        (hull [.point ⟨infinity, 0, 0⟩, .box ⟨0, ⟨1, 1, 0⟩⟩]) = true ∧
      (union [ofPoints [], ofPoints [⟨1, 0, 0⟩, 0], ofPoints [⟨0, infinity, 1⟩]] ==
        ofPoints [⟨1, 0, 0⟩, 0, (⟨0, infinity, 1⟩ : Vec3 Binary32)]) = true := by
  have hwrong : ∀ s ∈ [Step.box ⟨⟨1, 1, 1⟩, 0⟩, .box (empty : Box Binary32)], s.IsNumeric := by
    simp only [List.forall_mem_cons]
    exact ⟨⟨⟨rfl, rfl, rfl⟩, rfl, rfl, rfl⟩, ⟨⟨rfl, rfl, rfl⟩, rfl, rfl, rfl⟩, by simp⟩
  have hflat : ∀ s ∈ [Step.point ⟨infinity, 0, 0⟩, .box (⟨0, ⟨1, 1, 0⟩⟩ : Box Binary32)],
      s.IsNumeric := by
    simp only [List.forall_mem_cons]
    exact ⟨⟨rfl, rfl, rfl⟩, ⟨⟨rfl, rfl, rfl⟩, rfl, rfl, rfl⟩, by simp⟩
  obtain ⟨-, hordered, hcontains, horder, hsmallest⟩ := hull_smallest.1 _ hflat
  have hinside : ∀ s ∈ [Step.point ⟨infinity, 0, 0⟩, .box (⟨0, ⟨1, 1, 0⟩⟩ : Box Binary32)],
      s.IsInside ⟨0, ⟨infinity, 1, 1⟩⟩ := by
    simp only [List.forall_mem_cons]
    exact ⟨(by decide : Box.contains _ _ = true), fun _ => by decide, by simp⟩
  have hchunks : ∀ ps ∈ [[], [⟨1, 0, 0⟩, 0], [(⟨0, infinity, 1⟩ : Vec3 Binary32)]], ∀ p ∈ ps,
      p.All (·.isNumber = true) := by
    simp only [List.forall_mem_cons]
    exact ⟨by simp, ⟨⟨rfl, rfl, rfl⟩, ⟨rfl, rfl, rfl⟩, by simp⟩, ⟨⟨rfl, rfl, rfl⟩, by simp⟩,
      by simp⟩
  refine ⟨?_, hordered ⟨_, List.mem_cons_self, rfl⟩, ?_, ?_, ?_, hull_smallest.2 _ hchunks⟩
  · exact (hull_smallest.1 _ hwrong).1 (by decide)
  · exact ((hcontains ⟨ofNat 2, 1, 0⟩ ⟨rfl, rfl, rfl⟩).1 (by decide)).2 .x
  · exact horder _ (by simp)
  · exact (hsmallest _ ⟨⟨rfl, rfl, rfl⟩, rfl, rfl, rfl⟩ hinside).1 (by decide)

end Box

end HitTest
