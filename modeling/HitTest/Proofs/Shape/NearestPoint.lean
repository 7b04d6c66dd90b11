import HitTest.Proofs.Binary.Approx
import HitTest.Proofs.Binary.FixedPoint
import HitTest.Proofs.Shape.Hull
import HitTest.Proofs.Shape.Scalars
import HitTest.Shape.Any

/-!
# The nearest point of a segment and its box (`LineSegment::nearest_point_to`)

The point at a parameter between zero and one is, on every axis, between the start and the point at
parameter one, for rounding keeps the order. But the point at one is not always the end: the
direction is a rounded difference, and added to the start it may lead past the end by its roundoff,
and so out of the box around both. Where the direction is exact it leads to the end, and where it is
not rounded away from zero it does not lead past it.
-/

namespace HitTest

open Binary hiding min max

variable {f : Format}

/-! ## Along an axis -/

namespace Binary

variable {o d e t x y z : Binary f} {a : ℚ} {lo hi : ℤ}

/-- What is rounded to a finite number is below the end of the format. -/
theorem Rounds.abs_lt_top (h : Rounds a z) (hz : z.IsFinite) : |a| < f.valueAt f.top := by
  have not_above : ∀ {z : Binary f} {a : ℚ}, Rounds a z → z.IsFinite → a < f.valueAt f.top := by
    intro z a h hz
    by_contra hle
    rw [not_lt, ← value_signedInfinity_false] at hle
    have hinf := (h.le_value rfl hle).trans (le_abs_self _)
    rw [value_signedInfinity_false] at hinf
    exact hinf.not_gt hz.abs_value_lt
  exact abs_lt.2 ⟨neg_lt.1 (not_above h.neg hz.neg), not_above h hz⟩

/-- A number between finite ones is finite. -/
theorem isFinite_of_mem_uIcc (hx : x.IsFinite) (hy : y.IsFinite) (hz : z.isNumber = true)
    (h : z.value ∈ Set.uIcc x.value y.value) : z.IsFinite := by
  refine isFinite_of_abs_lt hz (lt_of_le_of_lt ?_ (max_lt hx.abs_value_lt hy.abs_value_lt))
  rcases Set.mem_uIcc.1 h with ⟨hlow, hup⟩ | ⟨hlow, hup⟩
  · exact abs_le_max_abs_abs hlow hup
  · exact (abs_le_max_abs_abs hlow hup).trans_eq (max_comm _ _)

/-- No finite number is off the grid of the format. -/
theorem Fixed.max_unitExponent (h : Fixed lo hi x) : Fixed (Max.max lo f.unitExponent) hi x where
  isFinite := h.isFinite
  onGrid := by
    rcases le_total lo f.unitExponent with hlo | hlo
    · obtain ⟨n, hn⟩ := isMultiple_value h.isFinite.1
      rw [max_eq_right hlo]
      exact ⟨n, by rw [hn, pow_zero, mul_one, Format.unit]⟩
    · rw [max_eq_left hlo]
      exact h.onGrid
  le := h.le

/-- A difference is exact on a grid of which a significand holds all steps. -/
theorem Fixed.value_sub (hx : Fixed lo hi x) (hy : Fixed lo hi y) (h : (x - y).IsFinite)
    (hdigits : hi - lo ≤ f.fractionBits) : (x - y).value = x.value - y.value := by
  have hround := rounds_sub hx.isFinite hy.isFinite
  have htop := hround.abs_lt_top h
  have hx := hx.max_unitExponent
  have hy := hy.max_unitExponent
  have hlo := le_max_right lo f.unitExponent
  replace hdigits : hi - Max.max lo f.unitExponent ≤ f.fractionBits :=
    (sub_le_sub_left (le_max_left _ _) hi).trans hdigits
  generalize Max.max lo f.unitExponent = j at *
  obtain ⟨n, hn⟩ := hx.onGrid.add hy.onGrid.neg
  rw [← sub_eq_add_neg] at hn
  have hsteps : |(n : ℚ)| * 2 ^ j ≤ 2 ^ (f.fractionBits + 1) * 2 ^ j :=
    calc |(n : ℚ)| * 2 ^ j = |x.value - y.value| := by
          rw [hn, abs_mul, abs_of_pos (show (0 : ℚ) < 2 ^ j by positivity)]
      _ ≤ 2 ^ hi + 2 ^ hi := (abs_sub _ _).trans (add_le_add hx.le hy.le)
      _ = 2 ^ (hi + 1) := by rw [zpow_add_one₀ two_ne_zero, mul_two]
      _ ≤ 2 ^ (((f.fractionBits + 1 : ℕ) : ℤ) + j) :=
        zpow_le_zpow_right₀ one_le_two (by push_cast; omega)
      _ = 2 ^ (f.fractionBits + 1) * 2 ^ j := by rw [zpow_add₀ two_ne_zero, zpow_natCast]
  have hn' : n.natAbs ≤ 2 * f.leading := by
    have hle := le_of_mul_le_mul_right hsteps (by positivity)
    rw [← Int.cast_abs, Int.abs_eq_natAbs, Int.cast_natCast, pow_succ'] at hle
    rw [f.leading_eq_pow]
    exact_mod_cast hle
  rw [hn] at hround htop ⊢
  exact hround.value_eq_zpow hn' hlo htop.le

theorem leastOf_pair (hx : x.IsFinite) (y : Binary f) : leastOf [x, y] = Min.min x y := by
  change Min.min (Min.min infinity x) y = _
  rw [min_infinity hx]

theorem greatestOf_pair (hx : x.IsFinite) (y : Binary f) : greatestOf [x, y] = Max.max x y := by
  change Max.max (Max.max (-infinity) x) y = _
  rw [max_neg_infinity hx]

/-- A parameter brought to the segment is between zero and one, whatever it was. -/
theorem min_max_mem (t : Binary f) : (Min.min (Max.max t 0) 1).IsFinite ∧
    0 ≤ (Min.min (Max.max t 0) 1).value ∧ (Min.min (Max.max t 0) 1).value ≤ 1 := by
  have hmax : (Max.max t 0).isNumber = true ∧ 0 ≤ (Max.max t 0).value := by
    cases hn : t.isNumber with
    | false =>
      obtain rfl := eq_nan hn
      exact ⟨rfl, value_zero.ge⟩
    | true =>
      rw [value_max hn isNumber_zero, value_zero]
      exact ⟨isNumber_max hn isNumber_zero, le_max_right _ _⟩
  have hnum := isNumber_min hmax.1 isFinite_one.1
  have hvalue := value_min hmax.1 (isFinite_one (f := f)).1
  rw [value_one] at hvalue
  have h0 : 0 ≤ (Min.min (Max.max t 0) 1).value := by
    rw [hvalue]
    exact le_min hmax.2 zero_le_one
  have h1 : (Min.min (Max.max t 0) 1).value ≤ 1 := by
    rw [hvalue]
    exact min_le_right _ _
  refine ⟨isFinite_of_abs_le_four hnum ?_, h0, h1⟩
  rw [abs_of_nonneg h0]
  exact h1.trans (by norm_num)

/-- A quotient by what is not finite is brought to zero. -/
theorem value_min_max_div (hy : ¬ y.IsFinite) : (Min.min (Max.max (x / y) 0) 1).value = 0 := by
  cases hn : (x / y).isNumber with
  | false =>
    rw [eq_nan hn, show Max.max nan (0 : Binary f) = 0 from rfl,
      value_min isNumber_zero isFinite_one.1, value_zero, value_one, min_eq_left zero_le_one]
  | true =>
    rw [value_min (isNumber_max hn isNumber_zero) isFinite_one.1, value_max hn isNumber_zero,
      value_div_eq_zero hn hy, value_zero, value_one, max_self, min_eq_left zero_le_one]

/-- What is at least one is brought to one. -/
theorem min_max_eq_one (h : 1 ≤ t) : Min.min (Max.max t 0) 1 = 1 := by
  have ht := isNumber_right h
  have hle := value_le_value h
  rw [value_one] at hle
  have hmax : Max.max t 0 = t := by
    rw [max_eq ht isNumber_zero, if_neg]
    rw [not_lt_iff_value ht isNumber_zero, value_zero]
    exact zero_le_one.trans hle
  rw [hmax, min_eq ht isFinite_one.1]
  split
  · rfl
  · rename_i hlt
    rw [not_lt_iff_value isFinite_one.1 ht, value_one] at hlt
    have e : t.value = 1 := le_antisymm hlt hle
    exact eq_of_value_eq ht isFinite_one.1 (e.trans value_one.symm) (by rw [e]; exact one_ne_zero)

/-- A step of a share of a difference leads to a number between the start and where the whole
difference leads. -/
theorem add_mul_mem_uIcc (ho : o.IsFinite) (hd : d.IsFinite) (ht : t.IsFinite) (h0 : 0 ≤ t.value)
    (h1 : t.value ≤ 1) : (o + d * t).isNumber = true ∧
      (o + d * t).value ∈ Set.uIcc o.value (o + d * 1).value := by
  have hmul := rounds_mul hd ht
  have hshare : (d * t).value ∈ Set.uIcc 0 d.value := by
    have h := Rounds.mem_uIcc (Rounds.self isNumber_zero) (.self hd.1) hmul (by
      rw [value_zero, Set.mem_uIcc]
      rcases le_total 0 d.value with hsign | hsign
      · exact .inl ⟨mul_nonneg hsign h0, mul_le_of_le_one_right hsign h1⟩
      · exact .inr ⟨le_mul_of_le_one_right hsign h1, mul_nonpos_of_nonpos_of_nonneg hsign h0⟩)
    rwa [value_zero] at h
  have hfin : (d * t).IsFinite :=
    isFinite_of_mem_uIcc isFinite_zero hd hmul.isNumber (by rwa [value_zero])
  have hsum := rounds_add ho hfin
  refine ⟨hsum.isNumber, Rounds.mem_uIcc (.self ho.1) (rounds_add ho (mul_one_spec hd).1) hsum ?_⟩
  rw [(mul_one_spec hd).2]
  rw [Set.mem_uIcc] at hshare ⊢
  exact hshare.imp (fun h => ⟨by linarith [h.1], by linarith [h.2]⟩)
    fun h => ⟨by linarith [h.1], by linarith [h.2]⟩

/-- A step of no share of a difference leads nowhere. -/
theorem isFinite_add_mul_of_value_eq_zero (ho : o.IsFinite) (hd : d.IsFinite) (ht : t.IsFinite)
    (h0 : t.value = 0) : (o + d * t).IsFinite := by
  have hmul := rounds_mul hd ht
  rw [h0, mul_zero, ← value_zero (f := f)] at hmul
  have hsum := rounds_add ho (hmul.of_value isFinite_zero).1
  rw [hmul.value_unique (.self isNumber_zero), value_zero, add_zero] at hsum
  exact (hsum.of_value ho).1

section Ends

variable (ho : o.IsFinite) (he : e.IsFinite) (hd : (e - o).IsFinite)

include ho hd

theorem rounds_add_mul_one : Rounds (o.value + (e - o).value) (o + (e - o) * 1) := by
  have h := rounds_add ho (mul_one_spec hd).1
  rwa [(mul_one_spec hd).2] at h

include he

/-- The whole difference leads to the end, up to the roundoff of two operations. -/
theorem abs_add_sub_le : |(o + (e - o) * 1).value - e.value| ≤
    (epsilon : Binary f).value * |e.value - o.value| := by
  have hround := (rounds_add_mul_one ho hd).abs_sub_le e
  have herror := sub_error he ho hd
  have htriangle := abs_add_le ((o + (e - o) * 1).value - (o.value + (e - o).value))
    (o.value + (e - o).value - e.value)
  rw [sub_add_sub_cancel] at htriangle
  rw [abs_sub_comm e.value] at hround
  rw [show o.value + (e - o).value - e.value = (e - o).value - (e.value - o.value) by ring]
    at hround htriangle
  rw [value_epsilon_eq]
  linarith

/-- An exact difference leads to the end itself. -/
theorem add_sub_beq (h : (e - o).value = e.value - o.value) :
    (o + (e - o) * 1 == e) = true := by
  have hround := rounds_add_mul_one ho hd
  rw [h, add_sub_cancel] at hround
  have hvalue := hround.value_unique (.self he.1)
  exact beq_of_le_of_le ((le_iff_value hround.isNumber he.1).2 hvalue.le)
    ((le_iff_value he.1 hround.isNumber).2 hvalue.ge)

/-- A difference that is not rounded away from zero does not lead past the end. -/
theorem add_sub_mem_uIcc (h : |(e - o).value| ≤ |e.value - o.value|) :
    (o + (e - o) * 1).value ∈ Set.uIcc o.value e.value := by
  have hsub := rounds_sub he ho
  refine Rounds.mem_uIcc (.self ho.1) (.self he.1) (rounds_add_mul_one ho hd) ?_
  rw [Set.mem_uIcc]
  rcases le_total o.value e.value with hle | hle
  · have h0 := hsub.value_nonneg (sub_nonneg.2 hle)
    rw [abs_of_nonneg h0, abs_of_nonneg (sub_nonneg.2 hle)] at h
    exact .inl ⟨by linarith, by linarith⟩
  · have h0 := hsub.value_nonpos (sub_nonpos.2 hle)
    rw [abs_of_nonpos h0, abs_of_nonpos (sub_nonpos.2 hle)] at h
    exact .inr ⟨by linarith, by linarith⟩

/-- Where the difference has a finite square, it does not lead out of the format. -/
theorem isFinite_add_sub (hsq : ((e - o) * (e - o)).IsFinite) : (o + (e - o) * 1).IsFinite := by
  have herror := ((rounds_sub he ho).error hd).2
  have hbelow := (rounds_mul hd hd).abs_lt_top hsq
  have htop := f.four_lt_valueAt_top
  have hu := f.roundoff_pos
  have hhalf : |(e - o).value| < f.valueAt f.top / 2 := by
    rw [abs_mul] at hbelow
    nlinarith [abs_nonneg (e - o).value]
  have hleast : f.leastFull < f.valueAt f.top / 2 :=
    f.leastFull_le_roundoff.trans_lt (by linarith [f.roundoff_le])
  refine (rounds_add_mul_one ho hd).isFinite_of_near he ?_
  calc |o.value + (e - o).value - e.value| = |(e - o).value - (e.value - o.value)| := by
        congr 1
        ring
    _ ≤ f.roundoff * Max.max |(e - o).value| f.leastFull := herror
    _ < f.roundoff * (f.valueAt f.top / 2) := mul_lt_mul_of_pos_left (max_lt hhalf hleast) hu
    _ = f.roundoff * f.valueAt f.top / 2 := by ring

end Ends

end Binary

/-! ## Segments -/

theorem Vec3.isFinite_mul_self_coord {a : Vec3 (Binary f)} (h : a.normSq.IsFinite) (i : Axis) :
    (a.coord i * a.coord i).IsFinite := by
  obtain ⟨hxy, hz⟩ := isFinite_of_add h
  obtain ⟨hx, hy⟩ := isFinite_of_add hxy
  cases i with
  | x => exact hx
  | y => exact hy
  | z => exact hz

namespace Segment

variable {s : Segment (Binary f)} {p q : Vec3 (Binary f)} {i : Axis}

/-- The exact difference of the ends on an axis. -/
def span (s : Segment (Binary f)) (i : Axis) : ℚ :=
  (s.finish.coord i).value - (s.start.coord i).value

theorem coord_pointAt (s : Segment (Binary f)) (t : Binary f) (i : Axis) : (s.pointAt t).coord i =
    s.start.coord i + (s.finish.coord i - s.start.coord i) * t := by
  cases i <;> rfl

theorem coord_direction (s : Segment (Binary f)) (i : Axis) :
    s.direction.coord i = s.finish.coord i - s.start.coord i := Vec3.coord_sub _ _ i

/-- What the nearest point is computed as: the point at a parameter of the segment, which is zero if
the squared length overflows. -/
theorem exists_pointAt (s : Segment (Binary f)) (p : Vec3 (Binary f)) : s.nearestTo p = s.start ∨
    ∃ t, (t.IsFinite ∧ 0 ≤ t.value ∧ t.value ≤ 1) ∧ s.nearestTo p = s.pointAt t ∧
      (s.direction.normSq.IsFinite ∨ t.value = 0) := by
  unfold nearestTo
  split
  · exact .inl rfl
  · exact .inr ⟨_, min_max_mem (s.paramOf p), rfl, or_iff_not_imp_left.2 value_min_max_div⟩

/-- The point at one is what every parameter from there on is brought to. -/
theorem nearestTo_eq_pointAt_one (hpos : 0 < s.direction.normSq) (h : 1 ≤ s.paramOf p) :
    s.nearestTo p = s.pointAt 1 := by
  obtain ⟨hnum, hpos⟩ := pos_iff.1 hpos
  rw [nearestTo, if_neg fun hle => hpos.not_ge (nonpos_iff.1 hle).2, min_max_eq_one h]

/-- The box around the ends. -/
theorem contains_bounds_iff (hs : s.All IsFinite) (hq : q.All (·.isNumber = true)) :
    s.bounds.contains q = true ↔
      ∀ i, (q.coord i).value ∈ Set.uIcc (s.start.coord i).value (s.finish.coord i).value := by
  have hends : ∀ a ∈ [s.start, s.finish], a.All (·.isNumber = true) := by
    simp only [List.forall_mem_cons, List.not_mem_nil, false_implies, implies_true, and_true]
    exact ⟨hs.1.isNumber, hs.2.isNumber⟩
  rw [bounds, Box.contains_iff_le_coord (Box.isNumeric_ofPoints hends) hq]
  refine forall_congr' fun i => ?_
  have hstart := Vec3.all_iff_coord.1 hs.1 i
  have hfinish := (Vec3.all_iff_coord.1 hs.2 i).1
  have hqi := Vec3.all_iff_coord.1 hq i
  rw [(Box.coord_ofPoints _ i).1, (Box.coord_ofPoints _ i).2, List.map_cons, List.map_cons,
    List.map_nil, leastOf_pair hstart, greatestOf_pair hstart,
    le_iff_value (isNumber_min hstart.1 hfinish) hqi,
    le_iff_value hqi (isNumber_max hstart.1 hfinish), value_min hstart.1 hfinish,
    value_max hstart.1 hfinish]
  rfl

section Finite

variable (hs : s.All IsFinite) (hd : s.direction.All IsFinite)

include hs hd

/-- The ends and the direction on an axis. -/
theorem isFinite_coord (i : Axis) : (s.start.coord i).IsFinite ∧ (s.finish.coord i).IsFinite ∧
    (s.finish.coord i - s.start.coord i).IsFinite := by
  rw [← coord_direction]
  exact ⟨Vec3.all_iff_coord.1 hs.1 i, Vec3.all_iff_coord.1 hs.2 i, Vec3.all_iff_coord.1 hd i⟩

/-- The nearest point is between the start and the point at one. -/
theorem nearestTo_mem_uIcc (p : Vec3 (Binary f)) (i : Axis) : ((s.nearestTo p).coord i).IsFinite ∧
    ((s.nearestTo p).coord i).value ∈
      Set.uIcc (s.start.coord i).value ((s.pointAt 1).coord i).value := by
  obtain ⟨ho, he, hdi⟩ := isFinite_coord hs hd i
  rcases s.exists_pointAt p with e | ⟨t, ⟨ht, h0, h1⟩, e, hlength⟩
  · rw [e]
    exact ⟨ho, Set.left_mem_uIcc⟩
  · rw [e, coord_pointAt, coord_pointAt]
    obtain ⟨hnum, hmem⟩ := add_mul_mem_uIcc ho hdi ht h0 h1
    refine ⟨?_, hmem⟩
    rcases hlength with hfin | hzero
    · have hsq := Vec3.isFinite_mul_self_coord hfin i
      rw [coord_direction] at hsq
      exact isFinite_of_mem_uIcc ho (isFinite_add_sub ho he hdi hsq) hnum hmem
    · exact isFinite_add_mul_of_value_eq_zero ho hdi ht hzero

/-- So the box contains it if it contains the point at one. -/
theorem contains_nearestTo (h : s.bounds.contains (s.pointAt 1) = true) (p : Vec3 (Binary f)) :
    s.bounds.contains (s.nearestTo p) = true := by
  have hpoint : (s.pointAt 1).All (·.isNumber = true) := Vec3.all_iff_coord.2 fun i => by
    obtain ⟨ho, -, hdi⟩ := isFinite_coord hs hd i
    rw [coord_pointAt]
    exact (rounds_add_mul_one ho hdi).isNumber
  have hnearest : (s.nearestTo p).All (·.isNumber = true) := Vec3.all_iff_coord.2 fun i =>
    (nearestTo_mem_uIcc hs hd p i).1.1
  rw [contains_bounds_iff hs hpoint] at h
  exact (contains_bounds_iff hs hnearest).2 fun i =>
    Set.uIcc_subset_uIcc_left (h i) (nearestTo_mem_uIcc hs hd p i).2

/-- The point at one is the end, up to the roundoff of the direction and of the sum. -/
theorem abs_sub_finish_le (i : Axis) :
    |((s.pointAt 1).coord i).value - (s.finish.coord i).value| ≤
      (epsilon : Binary f).value * |s.span i| := by
  obtain ⟨ho, he, hdi⟩ := isFinite_coord hs hd i
  rw [coord_pointAt]
  exact abs_add_sub_le ho he hdi

/-- It is the end where the direction is exact. -/
theorem pointAt_one_beq (h : (s.direction.coord i).value = s.span i) :
    ((s.pointAt 1).coord i == s.finish.coord i) = true := by
  obtain ⟨ho, he, hdi⟩ := isFinite_coord hs hd i
  rw [coord_direction] at h
  rw [coord_pointAt]
  exact add_sub_beq ho he hdi h

/-- It is not beyond the end where the direction is not rounded away from zero. -/
theorem contains_pointAt_one (h : ∀ i, |(s.direction.coord i).value| ≤ |s.span i|) :
    s.bounds.contains (s.pointAt 1) = true := by
  have hmem : ∀ i, ((s.pointAt 1).coord i).isNumber = true ∧ ((s.pointAt 1).coord i).value ∈
      Set.uIcc (s.start.coord i).value (s.finish.coord i).value := by
    intro i
    obtain ⟨ho, he, hdi⟩ := isFinite_coord hs hd i
    have hi := h i
    rw [coord_direction] at hi
    rw [coord_pointAt]
    exact ⟨(rounds_add_mul_one ho hdi).isNumber, add_sub_mem_uIcc ho he hdi hi⟩
  exact (contains_bounds_iff hs (Vec3.all_iff_coord.2 fun i => (hmem i).1)).2 fun i => (hmem i).2

end Finite

/-- On a grid of which a significand holds all steps the direction is exact. -/
theorem value_direction {lo hi : ℤ} (hs : s.All (Fixed lo hi)) (hd : s.direction.All IsFinite)
    (hdigits : hi - lo ≤ f.fractionBits) (i : Axis) : (s.direction.coord i).value = s.span i := by
  have hdi := Vec3.all_iff_coord.1 hd i
  rw [coord_direction] at hdi ⊢
  exact (Vec3.all_iff_coord.1 hs.2 i).value_sub (Vec3.all_iff_coord.1 hs.1 i) hdi hdigits

/-- **Where the nearest point is.** For a segment of finite ends and direction and any point, it is
between the start and the point at one, which it is if the parameter is at least one
(`LineSegment::nearest_point_to`). The point at one is close to the end, and is the end where the
direction is exact. If it is in the box around the ends, which it is unless the direction is rounded
away from zero, the nearest point is as well; on a grid of which a significand holds all steps both
always hold. -/
theorem nearestTo_between (hs : s.All IsFinite) (hd : s.direction.All IsFinite)
    (p : Vec3 (Binary f)) :
    (∀ i, ((s.nearestTo p).coord i).IsFinite ∧ ((s.nearestTo p).coord i).value ∈
      Set.uIcc (s.start.coord i).value ((s.pointAt 1).coord i).value) ∧
    (0 < s.direction.normSq → 1 ≤ s.paramOf p → s.nearestTo p = s.pointAt 1) ∧
    (∀ i, |((s.pointAt 1).coord i).value - (s.finish.coord i).value| ≤
        (epsilon : Binary f).value * |s.span i| ∧
      ((s.direction.coord i).value = s.span i →
        ((s.pointAt 1).coord i == s.finish.coord i) = true)) ∧
    ((∀ i, |(s.direction.coord i).value| ≤ |s.span i|) →
      s.bounds.contains (s.pointAt 1) = true) ∧
    (s.bounds.contains (s.pointAt 1) = true → s.bounds.contains (s.nearestTo p) = true) ∧
    ∀ lo hi : ℤ, hi - lo ≤ f.fractionBits → s.All (Fixed lo hi) →
      s.bounds.contains (s.nearestTo p) = true ∧
        (0 < s.direction.normSq → 1 ≤ s.paramOf p → (s.nearestTo p == s.finish) = true) := by
  refine ⟨nearestTo_mem_uIcc hs hd p, nearestTo_eq_pointAt_one, fun i =>
    ⟨abs_sub_finish_le hs hd i, pointAt_one_beq hs hd⟩, contains_pointAt_one hs hd,
    fun h => contains_nearestTo hs hd h p, fun lo hi hdigits hgrid => ⟨?_, fun hpos h => ?_⟩⟩
  · refine contains_nearestTo hs hd (contains_pointAt_one hs hd fun i => ?_) p
    rw [value_direction hgrid hd hdigits]
  · rw [nearestTo_eq_pointAt_one hpos h, Vec3.beq_iff_coord]
    exact fun i => pointAt_one_beq hs hd (value_direction hgrid hd hdigits i)

/-- A point beyond the end of a segment of length two. -/
theorem nearestTo_between_end :
    (⟨0, ⟨ofNat 2, 0, 0⟩⟩ : Segment Binary32).bounds.contains
        (Segment.nearestTo ⟨0, ⟨ofNat 2, 0, 0⟩⟩ ⟨ofNat 3, 1, 0⟩) = true ∧
      Segment.nearestTo (⟨0, ⟨ofNat 2, 0, 0⟩⟩ : Segment Binary32) ⟨ofNat 3, 1, 0⟩ =
        Segment.pointAt ⟨0, ⟨ofNat 2, 0, 0⟩⟩ 1 := by
  obtain ⟨-, hclamped, -, hexact, hcontains, -⟩ :=
    nearestTo_between (s := (⟨0, ⟨ofNat 2, 0, 0⟩⟩ : Segment Binary32)) ⟨by decide, by decide⟩
      (by decide) ⟨ofNat 3, 1, 0⟩
  refine ⟨hcontains (hexact ?_), hclamped (by decide +kernel) (by decide +kernel)⟩
  rw [Axis.forall_iff]
  decide +kernel

/-- The nearest point is clamped to the end, and is neither the end nor in the box. -/
def Overshoots (s : Segment (Binary f)) (p : Vec3 (Binary f)) : Prop :=
  ((s.start.All IsFinite ∧ s.finish.All IsFinite) ∧ s.direction.All IsFinite ∧ p.All IsFinite) ∧
    (0 < s.direction.normSq ∧ 1 ≤ s.paramOf p) ∧ s.bounds.contains (s.nearestTo p) = false ∧
      (s.nearestTo p == s.finish) = false

instance (s : Segment (Binary f)) (p : Vec3 (Binary f)) : Decidable (s.Overshoots p) :=
  inferInstanceAs (Decidable (((_ ∧ _) ∧ _ ∧ _) ∧ (_ ∧ _) ∧ _ ∧ _))

/-- From two to the power of 25 to one the direction is rounded to the opposite of the start, which
leads to zero. -/
theorem overshoots_one : (⟨⟨ofNat (2 ^ 25), 0, 0⟩, ⟨1, 0, 0⟩⟩ : Segment Binary32).Overshoots
    ⟨-ofNat (2 ^ 25), 0, 0⟩ := by
  decide +kernel

end Segment

end HitTest
