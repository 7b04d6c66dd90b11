import HitTest.Proofs.Binary.Magnitude
import HitTest.Proofs.Exact.Probe
import HitTest.Proofs.Query.Slab
import HitTest.Proofs.Shape.Hull

/-!
# The slab test under symmetries of the cube (`intersect_line_with_aabb`)

The axes of a box are clipped one after the other, but what one axis admits does not depend on what
the others have left: a line meets a box if and only if one parameter is admitted by all three, in
whatever order they are asked. An axis that is turned round, with its faces exchanged, admits the
same parameters, because differences, reciprocals and products of opposite numbers are opposite or
the same, up to the sign of a zero. Together: no reordering of the axes and no reversal of some of
them changes the answer.
-/

namespace HitTest

open Binary hiding min max

variable {f : Format}

/-! ## Opposite numbers -/

namespace Binary

variable {x x' y y' o u d d' : Binary f}

/-- A product with a finite number that is not zero depends on the values of the factors only. -/
theorem value_mul_congr (hx : x.isNumber = true) (hx' : x'.isNumber = true)
    (hxx : x.value = x'.value) (hy : y.IsFinite) (hy' : y'.IsFinite) (hyy : y.value = y'.value)
    (h0 : y.value ≠ 0) : (x * y).value = (x' * y').value := by
  obtain rfl := eq_of_value_eq hy.1 hy'.1 hyy h0
  by_cases hx0 : x.value = 0
  · -- zeros of either sign have products of the value zero
    have hzero : ∀ {z : Binary f}, z.isNumber = true → z.value = 0 → (z * y).value = 0 := by
      intro z hz hz0
      obtain ⟨-, hle, hge⟩ := mul_signs hz hy h0
      exact le_antisymm (hle (by simp [hz0])) (hge (by simp [hz0]))
    rw [hzero hx hx0, hzero hx' (hxx ▸ hx0)]
  · rw [eq_of_value_eq hx hx' hxx hx0]

/-- Differences of opposite numbers have opposite values. -/
theorem value_neg_sub_neg (hu : u.IsFinite) (ho : o.IsFinite) :
    (-u - -o).value = (-(u - o)).value := by
  have h := rounds_sub hu.neg ho.neg
  rw [value_neg, value_neg, neg_sub_neg, ← neg_sub] at h
  exact h.value_unique (rounds_sub hu ho).neg

/-- Reciprocals of opposite numbers have opposite values. -/
theorem value_reciprocal_neg (hd : d.IsFinite) (hd' : d'.IsFinite) (hdd : d'.value = -d.value)
    (hbig : ¬ d.abs ≤ minPositive) (hbig' : ¬ d'.abs ≤ minPositive) :
    (1 / d').value = (-(1 / d)).value := by
  have h := (reciprocal_spec hd' hbig').1
  rw [hdd, one_div_neg_eq_neg_one_div] at h
  exact h.value_unique (reciprocal_spec hd hbig).1.neg

end Binary

/-! ## What one axis admits -/

namespace Span

/-- The parameter at which a moving line reaches a face. -/
def reach (o d face : Binary f) : Binary f := (face - o) * (1 / d)

/-- The parameters that an axis leaves of a line: all or none if the line does not move along it,
and otherwise those between the parameters at which it reaches the faces. -/
def Admits (o d lower upper : Binary f) (s : ℚ) : Prop :=
  if d.abs ≤ minPositive then lower ≤ o ∧ o ≤ upper
  else min (reach o d lower).value (reach o d upper).value ≤ s ∧
    s ≤ max (reach o d lower).value (reach o d upper).value

/-- A parameter between the ends of a span. -/
structure Keeps (r : Span (Binary f)) (s : ℚ) : Prop where
  near_le : r.near.value ≤ s
  le_far : s ≤ r.far.value

variable {r r' : Span (Binary f)} {o d d' lower upper : Binary f} {s : ℚ}

theorem keeps_iff : r.Keeps s ↔ r.near.value ≤ s ∧ s ≤ r.far.value :=
  ⟨fun h => ⟨h.near_le, h.le_far⟩, fun h => ⟨h.1, h.2⟩⟩

theorem isNumber_reach (ho : o.IsFinite) (hd : d.IsFinite) (hbig : ¬ d.abs ≤ minPositive)
    {face : Binary f} (hface : face.IsFinite) : (reach o d face).isNumber = true := by
  obtain ⟨hinv, hne⟩ := reciprocal_ne_zero hd hbig
  exact (mul_signs (sub_signs hface.1 ho).1 hinv hne).1

/-- A moving line enters between two faces where it reaches the first of them, and leaves where it
reaches the second. -/
theorem enter_exit_spec (hl : (reach o d lower).isNumber = true)
    (hu : (reach o d upper).isNumber = true) :
    (enter o d lower upper).isNumber = true ∧ (exit o d lower upper).isNumber = true ∧
      (enter o d lower upper).value = min (reach o d lower).value (reach o d upper).value ∧
        (exit o d lower upper).value = max (reach o d lower).value (reach o d upper).value := by
  have henter : enter o d lower upper = Min.min (reach o d lower) (reach o d upper) :=
    (min_eq hl hu).symm
  have hexit : exit o d lower upper = Max.max (reach o d upper) (reach o d lower) :=
    (max_eq hu hl).symm
  rw [henter, hexit, value_min hl hu, value_max hu hl]
  exact ⟨isNumber_min hl hu, isNumber_max hu hl, rfl, max_comm _ _⟩

/-- Clipping leaves the parameters that the axis admits, and no others. -/
theorem keeps_clip_iff (hr : r.near ≤ r.far) (ho : o.IsFinite) (hd : d.IsFinite)
    (hl : lower.IsFinite) (hu : upper.IsFinite) :
    (∃ r', r.clip o d lower upper = some r' ∧ r'.Keeps s) ↔
      r.Keeps s ∧ Admits o d lower upper s := by
  by_cases hbig : d.abs ≤ minPositive
  · have hin : ¬ (o < lower ∨ upper < o) ↔ lower ≤ o ∧ o ≤ upper := by
      rw [not_or, Binary.not_lt ho.1 hl.1, Binary.not_lt hu.1 ho.1]
    rw [r.clip_of_still hbig, Admits, if_pos hbig, ← hin]
    split
    · rename_i hout
      simp [hout]
    · rename_i hout
      simp [hout]
  · obtain ⟨hen, hxn, henter, hexit⟩ :=
      enter_exit_spec (isNumber_reach ho hd hbig hl) (isNumber_reach ho hd hbig hu)
    obtain ⟨hnear, hfar, -⟩ := (le_iff _ _).1 hr
    have hkeeps : (⟨max r.near (enter o d lower upper), min r.far (exit o d lower upper)⟩ :
        Span (Binary f)).Keeps s ↔ r.Keeps s ∧ Admits o d lower upper s := by
      rw [keeps_iff, keeps_iff, value_max hnear hen, value_min hfar hxn, henter, hexit,
        Admits, if_neg hbig, max_le_iff, le_min_iff]
      tauto
    rw [r.clip_of_moving hbig, ← hkeeps]
    split
    · -- what is left has its ends the wrong way round
      rename_i hlt
      rw [lt_iff_value (isNumber_min hfar hxn) (isNumber_max hnear hen)] at hlt
      simp only [reduceCtorEq, false_and, exists_false, false_iff]
      intro hs
      exact absurd (hs.near_le.trans hs.le_far) (not_le.2 hlt)
    · simp

/-- The ends of what is left are in order. -/
theorem near_le_far_of_clip (hr : r.near ≤ r.far) (ho : o.IsFinite) (hd : d.IsFinite)
    (hl : lower.IsFinite) (hu : upper.IsFinite) (h : r.clip o d lower upper = some r') :
    r'.near ≤ r'.far := by
  by_cases hbig : d.abs ≤ minPositive
  · rw [r.clip_of_still hbig, Option.ite_none_left_eq_some, Option.some_inj] at h
    exact h.2 ▸ hr
  · obtain ⟨hen, hxn, -, -⟩ :=
      enter_exit_spec (isNumber_reach ho hd hbig hl) (isNumber_reach ho hd hbig hu)
    obtain ⟨hnear, hfar, -⟩ := (le_iff _ _).1 hr
    rw [r.clip_of_moving hbig, Option.ite_none_left_eq_some, Option.some_inj] at h
    obtain ⟨hle, rfl⟩ := h
    exact (Binary.not_lt (isNumber_min hfar hxn) (isNumber_max hnear hen)).1 hle

/-! ## Axes that are turned round -/

/-- A face of an axis that is turned round is reached at the same parameter. -/
theorem value_reach_neg (ho : o.IsFinite) (hd : d.IsFinite) (hd' : d'.IsFinite)
    (hdd : d'.value = -d.value) (hbig : ¬ d.abs ≤ minPositive) (hbig' : ¬ d'.abs ≤ minPositive)
    {face : Binary f} (hface : face.IsFinite) :
    (reach (-o) d' (-face)).value = (reach o d face).value := by
  obtain ⟨hinv, hne⟩ := reciprocal_ne_zero hd hbig
  obtain ⟨hinv', hne'⟩ := reciprocal_ne_zero hd' hbig'
  have hsub := (sub_signs hface.1 ho).1
  have hsub' := (sub_signs hface.neg.1 ho.neg).1
  calc (reach (-o) d' (-face)).value = (-(face - o) * -(1 / d)).value :=
        value_mul_congr hsub' (by simpa using hsub) (value_neg_sub_neg hface ho) hinv' hinv.neg
          (value_reciprocal_neg hd hd' hdd hbig hbig') hne'
    _ = (reach o d face).value := by rw [Binary.neg_mul, Binary.mul_neg, Binary.neg_neg, reach]

/-- An axis that is turned round admits the same parameters. -/
theorem admits_neg_iff (ho : o.IsFinite) (hd : d.IsFinite) (hd' : d'.IsFinite)
    (hdd : d'.value = -d.value) (hl : lower.IsFinite) (hu : upper.IsFinite) :
    Admits (-o) d' (-upper) (-lower) s ↔ Admits o d lower upper s := by
  have hstill : d'.abs ≤ minPositive ↔ d.abs ≤ minPositive := by
    rw [le_iff_value (by simpa using hd'.1) rfl, le_iff_value (by simpa using hd.1) rfl, value_abs,
      value_abs, hdd, abs_neg]
  by_cases hbig : d.abs ≤ minPositive
  · rw [Admits, Admits, if_pos hbig, if_pos (hstill.2 hbig), Binary.neg_le_neg_iff,
      Binary.neg_le_neg_iff, and_comm]
  · have hbig' : ¬ d'.abs ≤ minPositive := hstill.not.2 hbig
    rw [Admits, Admits, if_neg hbig, if_neg hbig', value_reach_neg ho hd hd' hdd hbig hbig' hl,
      value_reach_neg ho hd hd' hdd hbig hbig' hu, min_comm, max_comm]

end Span

/-! ## Three axes -/

namespace Box

variable {b : Box (Binary f)} {l : Line (Binary f)} {p : Probe (Binary f)}

/-- A line meets a box that is not empty if and only if some parameter of the line is admitted by
every axis. -/
theorem meetsLine_iff_admits (hl : b.least.All IsFinite) (hg : b.greatest.All IsFinite)
    (ho : l.origin.All IsFinite) (hd : l.direction.All IsFinite) (hmax : 0 ≤ l.maxParam) :
    b.meetsLine l = true ↔ b.isEmpty = false ∧ ∃ s : ℚ, 0 ≤ s ∧ s ≤ l.maxParam.value ∧
      ∀ i, Span.Admits (l.origin.coord i) (l.direction.coord i) (b.least.coord i)
        (b.greatest.coord i) s := by
  obtain ⟨hlx, hly, hlz⟩ := hl
  obtain ⟨hgx, hgy, hgz⟩ := hg
  obtain ⟨hox, hoy, hoz⟩ := ho
  obtain ⟨hdx, hdy, hdz⟩ := hd
  rw [meetsLine, Bool.and_eq_true, Bool.not_eq_true', Option.isSome_iff_exists]
  refine and_congr_right fun _ => ?_
  simp only [clip_eq_some_iff, Axis.forall_iff, Vec3.coord]
  constructor
  · rintro ⟨r, r1, r2, e1, e2, e3⟩
    have h1 := Span.near_le_far_of_clip (r := ⟨0, l.maxParam⟩) hmax hox hdx hlx hgx e1
    have h2 := Span.near_le_far_of_clip h1 hoy hdy hly hgy e2
    have h3 := Span.near_le_far_of_clip h2 hoz hdz hlz hgz e3
    -- the near end of what is left is a parameter that all axes admit
    have hkeeps : r.Keeps r.near.value := ⟨le_rfl, value_le_value h3⟩
    obtain ⟨k2, az⟩ := (Span.keeps_clip_iff h2 hoz hdz hlz hgz).1 ⟨r, e3, hkeeps⟩
    obtain ⟨k1, ay⟩ := (Span.keeps_clip_iff h1 hoy hdy hly hgy).1 ⟨r2, e2, k2⟩
    obtain ⟨k0, ax⟩ := (Span.keeps_clip_iff (r := ⟨0, l.maxParam⟩) hmax hox hdx hlx hgx).1
      ⟨r1, e1, k1⟩
    exact ⟨r.near.value, by simpa using k0.near_le, k0.le_far, ax, ay, az⟩
  · rintro ⟨s, h0, hs, ax, ay, az⟩
    have k0 : (⟨0, l.maxParam⟩ : Span (Binary f)).Keeps s := ⟨by simpa using h0, hs⟩
    obtain ⟨r1, e1, k1⟩ := (Span.keeps_clip_iff hmax hox hdx hlx hgx).2 ⟨k0, ax⟩
    have h1 := Span.near_le_far_of_clip (r := ⟨0, l.maxParam⟩) hmax hox hdx hlx hgx e1
    obtain ⟨r2, e2, k2⟩ := (Span.keeps_clip_iff h1 hoy hdy hly hgy).2 ⟨k1, ay⟩
    have h2 := Span.near_le_far_of_clip h1 hoy hdy hly hgy e2
    obtain ⟨r, e3, -⟩ := (Span.keeps_clip_iff h2 hoz hdz hlz hgz).2 ⟨k2, az⟩
    exact ⟨r, r1, r2, e1, e2, e3⟩

theorem meetsLine_probe_iff_admits (hl : b.least.All IsFinite) (hg : b.greatest.All IsFinite)
    (ho : p.origin.All IsFinite) (hd : p.direction.All IsFinite) :
    b.meetsLine p.line = true ↔
      b.isEmpty = false ∧ ∃ s : ℚ, 0 ≤ s ∧ s ≤ p.line.maxParam.value ∧
        ∀ i, Span.Admits (p.origin.coord i) (p.direction.coord i) (b.least.coord i)
          (b.greatest.coord i) s := by
  cases p with
  | segment g => exact meetsLine_iff_admits hl hg ho hd g.zero_le_maxParam
  | ray r => exact meetsLine_iff_admits hl hg ho hd r.zero_le_maxParam

theorem meets?_probe_shape : (Shape.box b).meets? p.shape = some (b.meetsLine p.line) := by
  cases p <;> rfl

end Box

/-! ## Symmetries of the cube -/

/-- The vector with given components. -/
def Vec3.ofCoord {S : Type} (g : Axis → S) : Vec3 S := ⟨g .x, g .y, g .z⟩

@[simp] theorem Vec3.coord_ofCoord {S : Type} (g : Axis → S) (i : Axis) :
    (Vec3.ofCoord g).coord i = g i := by cases i <;> rfl

/-- A symmetry of the cube: the axes are taken in another order, and some of them are turned
round. -/
structure CubeSymmetry where
  axis : Equiv.Perm Axis
  turned : Axis → Bool

namespace CubeSymmetry

variable {S : Type} [Neg S] (σ : CubeSymmetry)

/-- The image of a point or direction. -/
def vector (a : Vec3 S) : Vec3 S :=
  .ofCoord fun i => if σ.turned i then -a.coord (σ.axis i) else a.coord (σ.axis i)

/-- The image of a box: where an axis is turned round, its faces are exchanged. -/
def box (b : Box S) : Box S where
  least := .ofCoord fun i =>
    if σ.turned i then -b.greatest.coord (σ.axis i) else b.least.coord (σ.axis i)
  greatest := .ofCoord fun i =>
    if σ.turned i then -b.least.coord (σ.axis i) else b.greatest.coord (σ.axis i)

/-- The image of a segment or ray. -/
def probe : Probe S → Probe S
  | .segment g => .segment ⟨σ.vector g.start, σ.vector g.finish⟩
  | .ray r => .ray ⟨σ.vector r.origin, σ.vector r.direction⟩

variable {b : Box (Binary f)} {p : Probe (Binary f)} {i : Axis}

theorem isFinite_box (hl : b.least.All IsFinite) (hg : b.greatest.All IsFinite) :
    (σ.box b).least.All IsFinite ∧ (σ.box b).greatest.All IsFinite := by
  rw [Vec3.all_iff_coord] at hl hg
  rw [Vec3.all_iff_coord, Vec3.all_iff_coord]
  simp only [box, Vec3.coord_ofCoord]
  constructor
  · intro i
    split
    · exact (hg _).neg
    · exact hl _
  · intro i
    split
    · exact (hl _).neg
    · exact hg _

theorem isEmpty_box (hl : b.least.All IsFinite) (hg : b.greatest.All IsFinite) :
    (σ.box b).isEmpty = b.isEmpty := by
  rw [Vec3.all_iff_coord] at hl hg
  rw [Bool.eq_iff_iff, ← not_iff_not, Bool.not_eq_true, Bool.not_eq_true,
    Box.isEmpty_eq_false_iff_coord, Box.isEmpty_eq_false_iff_coord]
  refine σ.axis.forall_congr fun {i} => ?_
  cases h : σ.turned i with
  | false => simp [box, h]
  | true =>
    simp only [box, h, Vec3.coord_ofCoord, if_true]
    rw [Binary.not_lt (hl _).neg.1 (hg _).neg.1, Binary.not_lt (hg _).1 (hl _).1,
      Binary.neg_le_neg_iff]

/-- The image of a finite vector is finite. -/
theorem isFinite_vector {a : Vec3 (Binary f)} (ha : a.All IsFinite) :
    (σ.vector a).All IsFinite := by
  rw [Vec3.all_iff_coord] at ha ⊢
  intro i
  rw [vector, Vec3.coord_ofCoord]
  split
  · exact (ha _).neg
  · exact ha _

/-- A difference of images is the image of the difference, up to the signs of zeros. -/
theorem vector_sub {a c : Vec3 (Binary f)} (h : (a - c).All IsFinite) (i : Axis) :
    ((σ.vector a - σ.vector c).coord i).IsFinite ∧
      ((σ.vector a - σ.vector c).coord i).value = ((σ.vector (a - c)).coord i).value := by
  have hfin := Vec3.all_iff_coord.1 h (σ.axis i)
  simp only [Vec3.coord_sub, vector, Vec3.coord_ofCoord] at hfin ⊢
  cases σ.turned i with
  | false => exact ⟨hfin, rfl⟩
  | true =>
    obtain ⟨ha, hc⟩ := isFinite_of_sub hfin
    have hvalue := value_neg_sub_neg ha hc
    refine ⟨isFinite_of_abs_lt (sub_signs ha.neg.1 hc.neg).1 ?_, hvalue⟩
    rw [if_pos rfl, if_pos rfl, hvalue]
    exact hfin.neg.abs_value_lt

theorem origin_probe : (σ.probe p).origin = σ.vector p.origin := by cases p <;> rfl

/-- A segment finds its direction from the images of its ends. -/
theorem direction_probe (hd : p.direction.All IsFinite) (i : Axis) :
    ((σ.probe p).direction.coord i).IsFinite ∧
      ((σ.probe p).direction.coord i).value = ((σ.vector p.direction).coord i).value := by
  cases p with
  | ray r => exact ⟨Vec3.all_iff_coord.1 (σ.isFinite_vector hd) i, rfl⟩
  | segment g => exact σ.vector_sub hd i

/-- An axis that is not turned round keeps its direction to the last bit. -/
theorem direction_probe_of_not_turned (h : σ.turned i = false) :
    (σ.probe p).direction.coord i = p.direction.coord (σ.axis i) := by
  cases p with
  | ray r => simp [probe, Probe.direction, vector, h]
  | segment g =>
    simp [probe, Probe.direction, Segment.direction, Vec3.coord_sub, vector, h]

/-- What an axis admits of a probe, its image admits of the image. -/
theorem admits_probe_iff (hl : b.least.All IsFinite) (hg : b.greatest.All IsFinite)
    (ho : p.origin.All IsFinite) (hd : p.direction.All IsFinite) {s : ℚ} (i : Axis) :
    Span.Admits ((σ.probe p).origin.coord i) ((σ.probe p).direction.coord i)
        ((σ.box b).least.coord i) ((σ.box b).greatest.coord i) s ↔
      Span.Admits (p.origin.coord (σ.axis i)) (p.direction.coord (σ.axis i))
        (b.least.coord (σ.axis i)) (b.greatest.coord (σ.axis i)) s := by
  obtain ⟨hd', hvalue⟩ := σ.direction_probe hd i
  rw [Vec3.all_iff_coord] at hl hg ho hd
  rw [origin_probe]
  cases h : σ.turned i with
  | false =>
    rw [direction_probe_of_not_turned σ h]
    simp [box, vector, h]
  | true =>
    simp only [vector, box, Vec3.coord_ofCoord, h, if_true, value_neg] at hvalue ⊢
    exact Span.admits_neg_iff (ho _) (hd _) hd' hvalue (hl _) (hg _)

end CubeSymmetry

/-- The answer for a box and a ray or segment is the same, bit for bit, after the axes of both are
reordered and some of them turned round (`intersect_line_with_aabb`). The box can be empty; all that
is asked is that the corners, the start and the direction are finite. -/
theorem Shape.meets?_cubeSymmetry (σ : CubeSymmetry) {b : Box (Binary f)} {p : Probe (Binary f)}
    (hl : b.least.All IsFinite) (hg : b.greatest.All IsFinite) (ho : p.origin.All IsFinite)
    (hd : p.direction.All IsFinite) :
    (Shape.box (σ.box b)).meets? (σ.probe p).shape = (Shape.box b).meets? p.shape := by
  have hd' : (σ.probe p).direction.All IsFinite :=
    Vec3.all_iff_coord.2 fun i => (σ.direction_probe hd i).1
  have ho' : (σ.probe p).origin.All IsFinite := by
    rw [σ.origin_probe]
    exact σ.isFinite_vector ho
  have hmax : (σ.probe p).line.maxParam = p.line.maxParam := by cases p <;> rfl
  obtain ⟨hl', hg'⟩ := σ.isFinite_box hl hg
  rw [Box.meets?_probe_shape, Box.meets?_probe_shape, Option.some_inj, Bool.eq_iff_iff,
    Box.meetsLine_probe_iff_admits hl' hg' ho' hd', Box.meetsLine_probe_iff_admits hl hg ho hd,
    σ.isEmpty_box hl hg, hmax]
  -- the images of all axes admit a parameter if and only if all axes do
  have haxes : ∀ s : ℚ, (∀ i, Span.Admits ((σ.probe p).origin.coord i)
      ((σ.probe p).direction.coord i) ((σ.box b).least.coord i) ((σ.box b).greatest.coord i) s) ↔
      ∀ i, Span.Admits (p.origin.coord i) (p.direction.coord i) (b.least.coord i)
        (b.greatest.coord i) s :=
    fun s => σ.axis.forall_congr fun {i} => σ.admits_probe_iff hl hg ho hd i
  simp only [haxes]

/-- The axes one further along, the first and the last of them turned round, and a segment that
crosses the box. -/
theorem Shape.meets?_cubeSymmetry_segment :
    let σ : CubeSymmetry :=
      { axis :=
          { toFun := fun | .x => .y | .y => .z | .z => .x
            invFun := fun | .x => .z | .y => .x | .z => .y
            left_inv := fun i => by cases i <;> rfl
            right_inv := fun i => by cases i <;> rfl }
        turned := fun | .x => true | .y => false | .z => true }
    let b : Box Binary32 := ⟨⟨1, 0, 0⟩, ⟨ofNat 2, 1, 1⟩⟩
    let p : Probe Binary32 := .segment ⟨⟨0, 0, 1⟩, ⟨ofNat 3, 1, 0⟩⟩
    (Shape.box b).meets? p.shape = some true ∧
      (Shape.box (σ.box b)).meets? (σ.probe p).shape = some true := by
  intro σ b p
  have h : (Shape.box b).meets? p.shape = some true := by decide +kernel
  exact ⟨h, (meets?_cubeSymmetry σ (by decide +kernel) (by decide +kernel) (by decide +kernel)
    (by decide +kernel)).trans h⟩

end HitTest
