import HitTest.Proofs.Exact.Probe

/-!
# The nearest point of a ray or segment (`nearest_point_to`)

A point of a set is the nearest one to a given point if from it no other point of the set lies
towards the given one: by the law of cosines all others are farther away then, by their squared
distance at least. Along a line this is a condition on the parameter, which the parameter of the
projection meets as it is, and the ends of the line meet where the projection is beyond them.
-/

namespace HitTest

variable {K : Type} [Field K]

/-! ## Nearest points -/

namespace Vec3

/-- The law of cosines. -/
theorem distSq_eq_add_sub (p q x : Vec3 K) :
    p.distSq x = p.distSq q + q.distSq x - 2 * (p - q).dot (x - q) := by
  simp only [distSq, normSq, dot, sub_x, sub_y, sub_z]
  ring

variable [LinearOrder K]

/-- The one point of a set that is nearest to a given one. -/
structure IsNearest (C : Vec3 K → Prop) (p q : Vec3 K) : Prop where
  mem : C q
  distSq_le : ∀ x, C x → p.distSq q ≤ p.distSq x
  eq_of_distSq_eq : ∀ x, C x → p.distSq x = p.distSq q → x = q

variable [IsStrictOrderedRing K] {C : Vec3 K → Prop} {a p q x : Vec3 K}

/-- Points are at no distance only from themselves. -/
theorem eq_of_distSq_nonpos (h : q.distSq x ≤ 0) : x = q := by
  have hzero := eq_zero_of_normSq_nonpos h
  have hcoord : ∀ {g : Vec3 K → K}, g (x - q) = g x - g q → g (0 : Vec3 K) = 0 → g x = g q := by
    intro g hsub h0
    rw [hzero, h0] at hsub
    exact sub_eq_zero.1 hsub.symm
  exact Vec3.ext (hcoord (g := Vec3.x) rfl rfl) (hcoord (g := Vec3.y) rfl rfl)
    (hcoord (g := Vec3.z) rfl rfl)

/-- A point of a set is nearest if from there no other point lies towards the given one. -/
theorem IsNearest.of_dot_nonpos (hq : C q) (h : ∀ x, C x → (p - q).dot (x - q) ≤ 0) :
    IsNearest C p q := by
  have hfar : ∀ x, C x → p.distSq q + q.distSq x ≤ p.distSq x := by
    intro x hx
    rw [distSq_eq_add_sub p q x]
    linarith [h x hx]
  refine ⟨hq, fun x hx => ?_, fun x hx heq => eq_of_distSq_nonpos ?_⟩
  · exact (le_add_of_nonneg_right (zero_le_normSq _)).trans (hfar x hx)
  · linarith [hfar x hx]

end Vec3

/-! ## Clamping -/

section Clamp

variable [LinearOrder K] [IsStrictOrderedRing K] {x y : K}

/-- From the nonnegative number nearest to a number, no other one lies towards it. -/
theorem sub_max_mul_sub_nonpos (x : K) (hy : 0 ≤ y) : (x - max x 0) * (y - max x 0) ≤ 0 := by
  rcases le_total 0 x with hx | hx
  · rw [max_eq_left hx, sub_self, zero_mul]
  · rw [max_eq_right hx, sub_zero, sub_zero]
    exact mul_nonpos_of_nonpos_of_nonneg hx hy

/-- Nor from the nearest number between zero and one. -/
theorem sub_min_max_mul_sub_nonpos (x : K) (hy : 0 ≤ y) (hy1 : y ≤ 1) :
    (x - min (max x 0) 1) * (y - min (max x 0) 1) ≤ 0 := by
  rcases le_total (max x 0) 1 with h1 | h1
  · rw [min_eq_left h1]
    exact sub_max_mul_sub_nonpos x hy
  · have hx : 1 ≤ x := (le_max_iff.1 h1).resolve_right (not_le.2 zero_lt_one)
    rw [min_eq_right h1]
    exact mul_nonpos_of_nonneg_of_nonpos (sub_nonneg.2 hx) (sub_nonpos.2 hy1)

end Clamp

/-! ## Lines -/

namespace Exact

variable [LinearOrder K] {P : Params K}

theorem max_value (x y : K) : max (value x) (value y) = (value (max x y) : Exact P) := by
  have hmono : Monotone (value : K → Exact P) := fun a b h => value_le_value.2 h
  exact hmono.map_max.symm

theorem min_value (x y : K) : min (value x) (value y) = (value (min x y) : Exact P) := by
  have hmono : Monotone (value : K → Exact P) := fun a b h => value_le_value.2 h
  exact hmono.map_min.symm

end Exact

namespace Probe

section Scalar

variable {S : Type} [Scalar S]

/-- The point nearest to a given one. -/
def nearestTo : Probe S → Vec3 S → Vec3 S
  | segment s, p => s.nearestTo p
  | ray r, p => r.nearestTo p

/-- The parameter of the point to which a given one projects. -/
def projection (l : Probe S) (p : Vec3 S) : S :=
  l.direction.dot (p - l.origin) / l.direction.normSq

end Scalar

/-- The parameter of the domain that is nearest to a number. -/
def clamp {S : Type} [Zero S] [One S] [Min S] [Max S] : Probe S → S → S
  | segment _, x => min (max x 0) 1
  | ray _, x => max x 0

/-- A line without direction is its origin, and any other one is asked for the parameter of the
projection, brought to the domain. -/
theorem nearestTo_eq {S : Type} [Scalar S] (l : Probe S) (p : Vec3 S) :
    l.nearestTo p = if l.direction.normSq ≤ 0 then l.origin
      else l.pointAt (l.clamp (l.projection p)) := by
  cases l <;> rfl

/-- How far the way from one point of a line to another leads towards a given point. -/
theorem dot_sub_pointAt (l : Probe K) (p : Vec3 K) (s s' : K) :
    (p - l.pointAt s).dot (l.pointAt s' - l.pointAt s) =
      (l.direction.dot (p - l.origin) - l.direction.normSq * s) * (s' - s) := by
  simp only [pointAt, Vec3.normSq, Vec3.dot, Vec3.sub_x, Vec3.sub_y, Vec3.sub_z, Vec3.add_x,
    Vec3.add_y, Vec3.add_z, Vec3.mul_x, Vec3.mul_y, Vec3.mul_z]
  ring

theorem pointAt_zero (l : Probe K) : l.pointAt 0 = l.origin := by
  ext <;> simp [pointAt]

variable [LinearOrder K] {P : Exact.Params K}

@[simp] theorem origin_map (l : Probe K) :
    (l.map (Exact.value : K → Exact P)).origin = l.origin.map Exact.value := by
  cases l <;> rfl

@[simp] theorem direction_map (l : Probe K) :
    (l.map (Exact.value : K → Exact P)).direction = l.direction.map Exact.value := by
  cases l with
  | segment g => exact Vec3.map_sub_map _ _
  | ray r => rfl

@[simp] theorem pointAt_map (l : Probe K) (s : K) :
    (l.map (Exact.value : K → Exact P)).pointAt (.value s) = (l.pointAt s).map Exact.value := by
  simp [pointAt]

@[simp] theorem clamp_map (l : Probe K) (x : K) :
    (l.map (Exact.value : K → Exact P)).clamp (.value x) = .value (l.clamp x) := by
  cases l with
  | segment g =>
    simp only [map, clamp, Exact.zero_eq, Exact.one_eq, Exact.max_value, Exact.min_value]
  | ray r => exact Exact.max_value x 0

/-- The parameter of the nearest point. -/
def nearestParam (l : Probe K) (p : Vec3 K) : K :=
  if l.direction.normSq ≤ 0 then 0
  else l.clamp (l.direction.dot (p - l.origin) / l.direction.normSq)

theorem nearestTo_map (l : Probe K) (p : Vec3 K) :
    (l.map (Exact.value : K → Exact P)).nearestTo (p.map Exact.value) =
      (l.pointAt (l.nearestParam p)).map Exact.value := by
  rw [nearestTo_eq, nearestParam, projection, origin_map, direction_map, Vec3.map_sub_map,
    Vec3.dot_map, Vec3.normSq_map, Exact.div_value, clamp_map, pointAt_map]
  simp only [Exact.zero_eq, Exact.value_le_value]
  split
  · rw [pointAt_zero]
  · rfl

variable [IsStrictOrderedRing K]

theorem inDomain_clamp (l : Probe K) (x : K) : l.InDomain (l.clamp x) := by
  cases l with
  | segment g => exact ⟨le_min (le_max_right _ _) zero_le_one, min_le_right _ _⟩
  | ray r => exact le_max_right _ _

/-- No parameter of the domain lies towards a number from the one that is nearest to it. -/
theorem sub_clamp_mul_sub_nonpos (l : Probe K) (x : K) {s : K} (hs : l.InDomain s) :
    (x - l.clamp x) * (s - l.clamp x) ≤ 0 := by
  cases l with
  | segment g => exact sub_min_max_mul_sub_nonpos x hs.1 hs.2
  | ray r => exact sub_max_mul_sub_nonpos x hs

/-- The points of a ray or segment. -/
def Has (l : Probe K) (x : Vec3 K) : Prop := ∃ s, l.InDomain s ∧ l.pointAt s = x

theorem inDomain_nearestParam (l : Probe K) (p : Vec3 K) : l.InDomain (l.nearestParam p) := by
  unfold nearestParam
  split
  · cases l with
    | segment g => exact ⟨le_rfl, zero_le_one⟩
    | ray r => exact le_refl (0 : K)
  · exact l.inDomain_clamp _

theorem isNearest_pointAt (l : Probe K) (p : Vec3 K) :
    Vec3.IsNearest l.Has p (l.pointAt (l.nearestParam p)) := by
  refine .of_dot_nonpos ⟨_, l.inDomain_nearestParam p, rfl⟩ ?_
  rintro x ⟨s, hs, rfl⟩
  rw [dot_sub_pointAt]
  unfold nearestParam
  split
  · -- a line without direction has only one point
    rename_i hd
    rw [Vec3.eq_zero_of_normSq_nonpos hd]
    simp [Vec3.dot]
  · rename_i hd
    have hpos : 0 < l.direction.normSq := not_le.1 hd
    generalize l.direction.dot (p - l.origin) = b
    have hfactor : b - l.direction.normSq * l.clamp (b / l.direction.normSq) =
        l.direction.normSq * (b / l.direction.normSq - l.clamp (b / l.direction.normSq)) := by
      rw [mul_sub, mul_div_cancel₀ _ hpos.ne']
    rw [hfactor, mul_assoc]
    exact mul_nonpos_of_nonneg_of_nonpos hpos.le (l.sub_clamp_mul_sub_nonpos _ hs)

/-- The nearest point of a ray or segment is the point at a parameter of the domain, also if it has
no direction, and every other point of it is farther away (`nearest_point_to`). -/
theorem nearestTo_isNearest (l : Probe K) (p : Vec3 K) : ∃ s, l.InDomain s ∧
    (l.map (Exact.value : K → Exact P)).nearestTo (p.map Exact.value) =
      (l.map Exact.value).pointAt (.value s) ∧
    ∀ s', l.InDomain s' → p.distSq (l.pointAt s) ≤ p.distSq (l.pointAt s') ∧
      (p.distSq (l.pointAt s') = p.distSq (l.pointAt s) → l.pointAt s' = l.pointAt s) := by
  have hnearest := l.isNearest_pointAt p
  refine ⟨_, l.inDomain_nearestParam p, by rw [nearestTo_map, pointAt_map], fun s' hs' => ?_⟩
  exact ⟨hnearest.distSq_le _ ⟨s', hs', rfl⟩, hnearest.eq_of_distSq_eq _ ⟨s', hs', rfl⟩⟩

/-- A point beyond the end of a segment is nearest to the end. -/
theorem nearestTo_isNearest_end :
    (Probe.map Exact.value (.segment ⟨⟨0, 0, 0⟩, ⟨2, 0, 0⟩⟩) :
        Probe (Exact (.real 1 (1 / 2) one_half_pos))).nearestTo (Vec3.map Exact.value ⟨7, 0, 3⟩) =
      Vec3.map Exact.value ⟨2, 0, 0⟩ := by
  obtain ⟨s, hs, hnearest, hleast⟩ := nearestTo_isNearest (P := .real 1 (1 / 2) one_half_pos)
    (.segment ⟨⟨0, 0, 0⟩, ⟨2, 0, 0⟩⟩) ⟨7, 0, 3⟩
  have hend := (hleast 1 ⟨zero_le_one, le_rfl⟩).1
  obtain rfl : s = 1 := by
    have hle := hs.2
    simp [pointAt, origin, direction, Segment.direction, Vec3.distSq, Vec3.normSq,
      Vec3.dot] at hend
    nlinarith
  rw [hnearest, pointAt_map]
  congr 1
  norm_num [pointAt, origin, direction, Segment.direction, Vec3.ext_iff]

end Probe

end HitTest
