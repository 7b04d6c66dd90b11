import HitTest.Proofs.Binary.Approx
import HitTest.Proofs.Query.Reported
import HitTest.Proofs.Vector.Tolerance

/-!
# The two ways to reconstruct a hit (`intersect_line_with_tri`)

The point in which a line crosses a triangle can be found from the coordinates along the edges, as
the query does, and from the parameter of the line. The coordinates and the parameter solve a linear
system, by quotients of triple products. Each of them is rounded on its own, but all are divided by
the same rounded determinant, so the error of the determinant moves the two points together, and
what keeps them apart is the roundoff of the triple products over the determinant. That is small
for a line that is not almost parallel to the triangle, and not so for others.

The comparison of points up to roundoff measures their difference by their own size. So it also
fails for a triangle that is large, in a point near the origin of the coordinates.
-/

namespace HitTest

open Binary hiding min max

variable {f : Format}

/-! ## Equality up to roundoff -/

namespace Format

theorem half_top (f : Format) : f.valueAt f.top / 2 = 2 ^ (f.exponentBound - 1) := by
  have hpos := f.exponentBound_pos
  obtain ⟨n, hn⟩ := Nat.exists_eq_succ_of_ne_zero hpos.ne'
  rw [valueAt_top_eq, hn, Nat.succ_sub_one, pow_succ, mul_div_cancel_right₀ _ two_ne_zero]

end Format

namespace Binary

variable {x y z : Binary f} {a b m n : ℚ} {k : Nat}

/-- What is not above half the end of the format does not overflow. -/
theorem Rounds.isFinite_of_le_half (h : Rounds a z) (ha : |a| ≤ f.valueAt f.top / 2) :
    z.IsFinite := by
  have hpos := f.exponentBound_pos
  rw [f.half_top] at ha
  exact (Within.of_rounds h ha (by omega)).isFinite (by omega)

/-- A sum that is small by the magnitudes does not overflow. -/
theorem Approx.isFinite_add (hx : Approx k a m x) (hy : Approx k b n y) (hk : k ≤ 1000)
    (h : 2 * (m + n) ≤ f.valueAt f.top / 2) : (x + y).IsFinite := by
  have hmn := mul_le_mul_of_nonneg_right (f.growth_le_thousandth hk)
    (add_nonneg hx.nonneg hy.nonneg)
  refine (rounds_add hx.isFinite hy.isFinite).isFinite_of_le_half ((abs_add_le _ _).trans ?_)
  linarith [hx.abs_value_le, hy.abs_value_le, hx.nonneg, hy.nonneg]

end Binary

namespace Vec3

variable {p q : Vec3 (Binary f)}

/-- The exact sum of the differences of the components. -/
def gap (p q : Vec3 (Binary f)) : ℚ :=
  |p.x.value - q.x.value| + |p.y.value - q.y.value| + |p.z.value - q.z.value|

/-- A difference of vectors is not much larger than both of them. -/
theorem extent_sub_le {a b : Vec3 (Binary f)} (h : (a - b).All IsFinite) :
    (a - b).extent ≤ 1001 / 1000 * (a.extent + b.extent) := by
  have hterm : ∀ {x y : Binary f}, (x - y).IsFinite →
      |(x - y).value| ≤ 1001 / 1000 * (|x.value| + |y.value|) := by
    intro x y h
    obtain ⟨hx, hy⟩ := isFinite_of_sub h
    refine ((Approx.self hx).sub (.self hy) h).abs_value_le.trans ?_
    refine mul_le_mul_of_nonneg_right ?_ (by positivity)
    linarith [f.growth_le_thousandth (k := 0 + 1) (by decide)]
  have hx := hterm h.1
  have hy := hterm h.2.1
  have hz := hterm h.2.2
  simp only [sub_x, sub_y, sub_z, extent]
  linarith

/-- The computed size of a difference that is small. -/
theorem approx_norm1_sub (hp : p.All IsFinite) (hq : q.All IsFinite)
    (h : 2 * p.gap q ≤ f.valueAt f.top / 2) :
    Approx 3 (p.gap q) (p.gap q) (p - q).norm1 := by
  have hx0 := abs_nonneg (p.x.value - q.x.value)
  have hy0 := abs_nonneg (p.y.value - q.y.value)
  have hz0 := abs_nonneg (p.z.value - q.z.value)
  unfold gap at h
  have hterm : ∀ {x y : Binary f}, x.IsFinite → y.IsFinite →
      |x.value - y.value| ≤ f.valueAt f.top / 2 →
      Approx 1 (x.value - y.value) |x.value - y.value| (x - y) := fun hx hy hle =>
    .difference hx hy ((rounds_sub hx hy).isFinite_of_le_half hle)
  have ax := hterm hp.1 hq.1 (by linarith)
  have ay := hterm hp.2.1 hq.2.1 (by linarith)
  have az := hterm hp.2.2 hq.2.2 (by linarith)
  have hxy := ax.abs.isFinite_add ay.abs (by decide) (by linarith)
  have hsum := (ax.abs.add ay.abs hxy).isFinite_add (az.abs.mono (Nat.le_succ 1) le_rfl)
    (by decide) (by linarith)
  exact approx_norm1 ax ay az hsum

/-- The tolerance that two points are compared with. -/
theorem approx_tolerance (hp : p.All IsFinite) (hq : q.All IsFinite)
    (h : (Scalar.tolerance * (p.norm1 + q.norm1) + Scalar.tolerance : Binary f).IsFinite) :
    Approx 5 (200 * f.roundoff * (p.extent + q.extent) + 200 * f.roundoff)
      (200 * f.roundoff * (p.extent + q.extent) + 200 * f.roundoff + f.leastFull)
      (Scalar.tolerance * (p.norm1 + q.norm1) + Scalar.tolerance : Binary f) := by
  obtain ⟨hmul, htol⟩ := isFinite_of_add h
  have hadd := (isFinite_of_mul hmul).2
  obtain ⟨hpf, hqf⟩ := isFinite_of_add hadd
  have hsize : ∀ {v : Vec3 (Binary f)}, v.All IsFinite → v.norm1.IsFinite →
      Approx 2 v.extent v.extent v.norm1 := fun hv hf =>
    approx_norm1 (.self hv.1) (.self hv.2.1) (.self hv.2.2) hf
  have htol' := Approx.self htol
  rw [value_tolerance, abs_of_pos (mul_pos (by norm_num) f.roundoff_pos)] at htol'
  refine ((htol'.mul ((hsize hp hpf).add (hsize hq hqf) hadd) hmul).add (htol'.mono ?_ le_rfl)
    h).mono le_rfl (le_of_eq ?_)
  · decide
  · ring

theorem extent_le (hp : p.All IsFinite) : p.extent ≤ 3 * f.valueAt f.top := by
  have hx := hp.1.abs_value_lt
  have hy := hp.2.1.abs_value_lt
  have hz := hp.2.2.abs_value_lt
  unfold extent
  linarith

/-- Two points are equal up to roundoff if they are by the exact difference, with a little less than
the tolerance. -/
theorem equivalent_of_gap_le (hp : p.All IsFinite) (hq : q.All IsFinite)
    (h : p.gap q ≤ 198 * f.roundoff * (1 + p.extent + q.extent)) : p.equivalent q = true := by
  have hu := f.roundoff_pos
  have hP := p.extent_nonneg
  have hQ := q.extent_nonneg
  have hsmall : 2 * p.gap q ≤ f.valueAt f.top / 2 := by
    have htop := f.four_lt_valueAt_top
    have hsize : 1 + p.extent + q.extent ≤ 7 * f.valueAt f.top := by
      linarith [extent_le hp, extent_le hq]
    have hmul := mul_le_mul f.roundoff_le hsize (by linarith) (by norm_num)
    linarith
  have hdiff := approx_norm1_sub hp hq hsmall
  rw [equivalent, equivalentWith, decide_eq_true_eq]
  by_cases hfin : (Scalar.tolerance * (p.norm1 + q.norm1) + Scalar.tolerance : Binary f).IsFinite
  · have htol := approx_tolerance hp hq hfin
    rw [lt_iff_value hdiff.isFinite.1 hfin.1]
    have hupper := (le_abs_self _).trans hdiff.abs_value_le
    have hlower := (abs_le.1 htol.error).1
    have h3 := mul_le_mul_of_nonneg_right (f.growth_le_thousandth (k := 3) (by decide)) hdiff.nonneg
    have h5 := mul_le_mul_of_nonneg_right (f.growth_le_thousandth (k := 5) (by decide)) htol.nonneg
    have huP := mul_nonneg hu.le hP
    have huQ := mul_nonneg hu.le hQ
    linarith [f.leastFull_le_roundoff]
  · rw [(isFinite_or_infinite_of_nonneg (Binary.le_of_lt (allowed_pos hp hq))).resolve_left hfin,
      lt_iff_value hdiff.isFinite.1 rfl, value_signedInfinity_false]
    exact (le_abs_self _).trans_lt hdiff.isFinite.abs_value_lt

end Vec3

/-! ## The linear system -/

/-- The volumes with one of the three vectors replaced solve the system, by their share of the
volume of all three. -/
theorem Vec3.volume_solves (e0 e1 a d : Vec3 (Binary f)) (i : Axis) :
    (e0.coord i).value * a.volume d e1 + (e1.coord i).value * d.volume a e0 -
      (d.coord i).value * e1.volume a e0 = (a.coord i).value * e0.volume d e1 := by
  unfold Vec3.volume Vec3.values Vec3.dot Vec3.cross
  cases i <;> dsimp only [Vec3.coord, Vec3.map] <;> ring

/-- What is left over when approximate shares are put into an equation of the system. -/
theorem residual_le {e0 e1 a d u v s U V P D det Eu Ev Es Ed : ℚ} (h0 : det ≠ 0)
    (hsolve : e0 * U + e1 * V - d * P = a * D) (hu : |u - U / det| ≤ Eu)
    (hv : |v - V / det| ≤ Ev) (hs : |s - P / det| ≤ Es) (hd : |det - D| ≤ Ed * |det|) :
    |e0 * u + e1 * v - a - d * s| ≤ |e0| * Eu + |e1| * Ev + |d| * Es + |a| * Ed := by
  -- the exact shares leave over what the determinant is off by, along the offset
  have hsplit : e0 * u + e1 * v - a - d * s = e0 * (u - U / det) + e1 * (v - V / det) -
      (d * (s - P / det) + a * ((det - D) / det)) := by
    field_simp
    linear_combination hsolve
  have hdet : |(det - D) / det| ≤ Ed := by
    rw [abs_div]
    exact (div_le_iff₀ (abs_pos.2 h0)).2 hd
  have h1 := mul_le_mul_of_nonneg_left hu (abs_nonneg e0)
  have h2 := mul_le_mul_of_nonneg_left hv (abs_nonneg e1)
  have h3 := mul_le_mul_of_nonneg_left hs (abs_nonneg d)
  have h4 := mul_le_mul_of_nonneg_left hdet (abs_nonneg a)
  rw [← abs_mul] at h1 h2 h3 h4
  have hleft := abs_add_le (e0 * (u - U / det)) (e1 * (v - V / det))
  have hright := abs_add_le (d * (s - P / det)) (a * ((det - D) / det))
  rw [hsplit]
  exact (abs_sub _ _).trans (by linarith)

/-- One coordinate of the two points. -/
theorem Binary.abs_sub_reconstruction_le {v0 e0 e1 o d u v s : Binary f} {R : ℚ}
    (hp : (v0 + e0 * u + e1 * v).IsFinite) (hq : (o + d * s).IsFinite) (ha : (o - v0).IsFinite)
    (hu : |u.value| ≤ 1) (hv : |v.value| ≤ 1)
    (hR : |e0.value * u.value + e1.value * v.value - (o - v0).value - d.value * s.value| ≤ R) :
    |(v0 + e0 * u + e1 * v).value - (o + d * s).value| ≤
      f.growth 3 * (|v0.value| + |e0.value| + |e1.value| + 2 * f.leastFull) +
        f.growth 2 * (|o.value| + |d.value| * |s.value| + f.leastFull) +
        f.roundoff * (|o.value| + |v0.value|) + R := by
  obtain ⟨h1, he1⟩ := isFinite_of_add hp
  obtain ⟨h0, he0⟩ := isFinite_of_add h1
  obtain ⟨ho, hds⟩ := isFinite_of_add hq
  have product : ∀ {x y : Binary f}, (x * y).IsFinite →
      Approx 1 (x.value * y.value) (|x.value| * |y.value| + f.leastFull) (x * y) := fun h =>
    (Approx.self (isFinite_of_mul h).1).mul (.self (isFinite_of_mul h).2) h
  have start : ∀ {x : Binary f}, x.IsFinite → Approx 1 x.value |x.value| x := fun h =>
    (Approx.self h).mono (Nat.zero_le 1) le_rfl
  have hpoint := ((((start h0).add (product he0) h1).add
    ((product he1).mono (Nat.le_succ 1) le_rfl) hp).mono le_rfl
      (n := |v0.value| + |e0.value| + |e1.value| + 2 * f.leastFull) (by
        have hle0 := mul_le_of_le_one_right (abs_nonneg e0.value) hu
        have hle1 := mul_le_of_le_one_right (abs_nonneg e1.value) hv
        linarith)).error
  have hline := ((start ho).add (product hds) hq).error
  have hoffset : |(o - v0).value - (o.value - v0.value)| ≤
      f.roundoff * (|o.value| + |v0.value|) :=
    (sub_error ho h0 ha).trans (mul_le_mul_of_nonneg_left (abs_sub _ _) f.roundoff_pos.le)
  obtain ⟨p1, p2⟩ := abs_le.1 hpoint
  obtain ⟨l1, l2⟩ := abs_le.1 hline
  obtain ⟨a1, a2⟩ := abs_le.1 hoffset
  obtain ⟨r1, r2⟩ := abs_le.1 hR
  exact abs_le.2 ⟨by linarith, by linarith⟩

namespace Triangle

variable {t : Triangle (Binary f)} {l : Line (Binary f)} {u v s : Binary f}

/-- How far out the vertices and the start of the line are. -/
def reach (t : Triangle (Binary f)) (l : Line (Binary f)) : ℚ :=
  t.v0.extent + t.v1.extent + t.v2.extent + l.origin.extent

/-- By what the roundoff of the volumes is magnified: the size of their factors over the
determinant, and a share of the least number with a full significand, for underflow. -/
def condition (t : Triangle (Binary f)) (l : Line (Binary f)) : ℚ :=
  t.edge0.extent * t.edge1.extent * (l.origin - t.v0).extent * l.direction.extent /
      |(t.determinant l.direction).value| +
    3 * f.leastFull * ((1 + t.edge0.extent) * (1 + t.edge1.extent) *
      (1 + (l.origin - t.v0).extent) * (1 + l.direction.extent)) *
        (1 + 1 / |(t.determinant l.direction).value|)

/-- The two points are apart by the roundings of their own computation and by what is left over. -/
theorem gap_le_of_residual {Eu Ev Es Ed : ℚ} (hp : (t.pointAt u v).All IsFinite)
    (hq : (l.pointAt s).All IsFinite) (ha : (l.origin - t.v0).All IsFinite) (hu : |u.value| ≤ 1)
    (hv : |v.value| ≤ 1)
    (hres : ∀ i, |(t.edge0.coord i).value * u.value + (t.edge1.coord i).value * v.value -
        ((l.origin - t.v0).coord i).value - (l.direction.coord i).value * s.value| ≤
      |(t.edge0.coord i).value| * Eu + |(t.edge1.coord i).value| * Ev +
        |(l.direction.coord i).value| * Es + |((l.origin - t.v0).coord i).value| * Ed) :
    (t.pointAt u v).gap (l.pointAt s) ≤
      f.growth 3 * (t.v0.extent + t.edge0.extent + t.edge1.extent + 6 * f.leastFull) +
        f.growth 2 * (l.origin.extent + l.direction.extent * |s.value| + 3 * f.leastFull) +
        f.roundoff * (l.origin.extent + t.v0.extent) +
        (t.edge0.extent * Eu + t.edge1.extent * Ev + l.direction.extent * Es +
          (l.origin - t.v0).extent * Ed) := by
  have hx := abs_sub_reconstruction_le hp.1 hq.1 ha.1 hu hv (hres .x)
  have hy := abs_sub_reconstruction_le hp.2.1 hq.2.1 ha.2.1 hu hv (hres .y)
  have hz := abs_sub_reconstruction_le hp.2.2 hq.2.2 ha.2.2 hu hv (hres .z)
  refine (add_le_add_three hx hy hz).trans (le_of_eq ?_)
  unfold Vec3.extent Vec3.coord
  ring

/-- A factor times the error of the volume of the other three, over the determinant. -/
theorem mul_volumeExtent_le {w x y z det least : ℚ} (hw : 0 ≤ w) (hx : 0 ≤ x) (hy : 0 ≤ y)
    (hz : 0 ≤ z) (hd : 0 ≤ det) (hl : 0 ≤ least) :
    w * ((x * y * z + least * (2 * x + 3)) / det + least) ≤ w * x * y * z / det +
      3 * least * ((1 + w) * (1 + x) * (1 + y) * (1 + z)) * (1 + 1 / det) := by
  have hpair : (1 + w) * (1 + x) ≤ (1 + w) * (1 + x) * (1 + y) * (1 + z) := by
    rw [mul_assoc ((1 + w) * (1 + x))]
    refine le_mul_of_one_le_right (by positivity) ?_
    nlinarith
  have hone : w ≤ 3 * ((1 + w) * (1 + x) * (1 + y) * (1 + z)) := by nlinarith
  have htwo : w * (2 * x + 3) ≤ 3 * ((1 + w) * (1 + x) * (1 + y) * (1 + z)) := by nlinarith
  have h1 := mul_le_mul_of_nonneg_left hone hl
  have h2 := mul_le_mul_of_nonneg_left htwo (div_nonneg hl hd)
  calc w * ((x * y * z + least * (2 * x + 3)) / det + least)
      = w * x * y * z / det + least / det * (w * (2 * x + 3)) + least * w := by ring
    _ ≤ w * x * y * z / det + least / det * (3 * ((1 + w) * (1 + x) * (1 + y) * (1 + z))) +
        least * (3 * ((1 + w) * (1 + x) * (1 + y) * (1 + z))) := by linarith
    _ = _ := by ring

/-- So the errors of the solution, along each of the vectors, are measured by the condition. -/
theorem mul_shareExtent_le (t : Triangle (Binary f)) (l : Line (Binary f)) :
    t.edge0.extent * (l.origin - t.v0).shareExtent l.direction t.edge1
        (t.determinant l.direction) ≤ t.condition l ∧
      t.edge1.extent * l.direction.shareExtent (l.origin - t.v0) t.edge0
        (t.determinant l.direction) ≤ t.condition l ∧
      l.direction.extent * t.edge1.shareExtent (l.origin - t.v0) t.edge0
        (t.determinant l.direction) ≤ t.condition l ∧
      (l.origin - t.v0).extent * t.edge0.shareExtent l.direction t.edge1
        (t.determinant l.direction) ≤ t.condition l := by
  have h0 := t.edge0.extent_nonneg
  have h1 := t.edge1.extent_nonneg
  have ha := (l.origin - t.v0).extent_nonneg
  have hd := l.direction.extent_nonneg
  have hdet := abs_nonneg (t.determinant l.direction).value
  have hl := f.leastFull_pos.le
  refine ⟨(mul_volumeExtent_le h0 ha hd h1 hdet hl).trans (le_of_eq ?_),
    (mul_volumeExtent_le h1 hd ha h0 hdet hl).trans (le_of_eq ?_),
    (mul_volumeExtent_le hd h1 ha h0 hdet hl).trans (le_of_eq ?_),
    (mul_volumeExtent_le ha h0 hd h1 hdet hl).trans (le_of_eq ?_)⟩ <;> unfold condition <;> ring

theorem leastFull_le_condition (t : Triangle (Binary f)) (l : Line (Binary f)) :
    3 * f.leastFull ≤ t.condition l := by
  have h0 := t.edge0.extent_nonneg
  have h1 := t.edge1.extent_nonneg
  have ha := (l.origin - t.v0).extent_nonneg
  have hd := l.direction.extent_nonneg
  have hl := f.leastFull_pos
  have hone : 1 ≤ (1 + t.edge0.extent) * (1 + t.edge1.extent) *
      (1 + (l.origin - t.v0).extent) * (1 + l.direction.extent) :=
    one_le_mul_of_one_le_of_one_le (one_le_mul_of_one_le_of_one_le
      (one_le_mul_of_one_le_of_one_le (by linarith) (by linarith)) (by linarith)) (by linarith)
  have hinverse : 1 ≤ 1 + 1 / |(t.determinant l.direction).value| :=
    le_add_of_nonneg_right (by positivity)
  have hleft : 0 ≤ t.edge0.extent * t.edge1.extent * (l.origin - t.v0).extent *
      l.direction.extent / |(t.determinant l.direction).value| := by positivity
  have hright : 3 * f.leastFull * 1 ≤ 3 * f.leastFull * ((1 + t.edge0.extent) *
      (1 + t.edge1.extent) * (1 + (l.origin - t.v0).extent) * (1 + l.direction.extent)) *
        (1 + 1 / |(t.determinant l.direction).value|) := by
    rw [mul_assoc (3 * f.leastFull)]
    exact mul_le_mul_of_nonneg_left (one_le_mul_of_one_le_of_one_le hone hinverse) (by positivity)
  unfold condition
  linarith

/-- What the query computes for a line that passes, where nothing overflows. -/
theorem Passes.approx {o d : Vec3 (Binary f)} (h : t.Passes o d u v s)
    (hdet : (t.determinant d).IsFinite) (hu : u.IsFinite) (hv : v.IsFinite) (hs : s.IsFinite) :
    Approx 10 ((o - t.v0).volume d t.edge1 / (t.determinant d).value)
        ((o - t.v0).shareExtent d t.edge1 (t.determinant d)) u ∧
      Approx 10 (d.volume (o - t.v0) t.edge0 / (t.determinant d).value)
        (d.shareExtent (o - t.v0) t.edge0 (t.determinant d)) v ∧
      Approx 10 (t.edge1.volume (o - t.v0) t.edge0 / (t.determinant d).value)
        (t.edge1.shareExtent (o - t.v0) t.edge0 (t.determinant d)) s := by
  obtain ⟨hbig, rfl, -, rfl, -, rfl⟩ := h
  exact ⟨Vec3.approx_share hdet hbig hu, Vec3.approx_share hdet hbig hv,
    Vec3.approx_share hdet hbig hs⟩

/-- The roundings along the way, added up. -/
theorem roundings_le {e0 e1 s W : ℚ} {v0 v1 v2 o κ : ℚ} (h0 : 0 ≤ v0) (h1 : 0 ≤ v1) (h2 : 0 ≤ v2)
    (ho : 0 ≤ o) (hleast : 3 * f.leastFull ≤ κ) (he0 : e0 ≤ 1001 / 1000 * (v1 + v0))
    (he1 : e1 ≤ 1001 / 1000 * (v2 + v0)) (hs : s ≤ (1 + f.growth 10) * κ)
    (hW : W ≤ (3 * f.growth 10 + f.growth 5) * κ) :
    f.growth 3 * (v0 + e0 + e1 + 6 * f.leastFull) + f.growth 2 * (o + s + 3 * f.leastFull) +
      f.roundoff * (o + v0) + W ≤ 2 * f.roundoff * (6 * (v0 + v1 + v2 + o) + 23 * κ) := by
  have hu := f.roundoff_pos.le
  have hκ : 0 ≤ κ := by linarith [f.leastFull_pos]
  have hshare : ∀ {k : Nat} {x y : ℚ}, k ≤ 1000 → x ≤ y → 0 ≤ y →
      f.growth k * x ≤ 1001 / 1000 * (k * f.roundoff) * y := fun hk hxy hy =>
    (mul_le_mul_of_nonneg_left hxy (f.growth_nonneg _)).trans
      (mul_le_mul_of_nonneg_right (f.growth_le hk) hy)
  have h10 := mul_le_mul_of_nonneg_right (f.growth_le_thousandth (k := 10) (by decide)) hκ
  have hpoint := hshare (k := 3) (x := v0 + e0 + e1 + 6 * f.leastFull)
    (y := 1001 / 1000 * (3 * v0 + v1 + v2) + 2 * κ) (by decide) (by linarith) (by positivity)
  have hline := hshare (k := 2) (x := o + s + 3 * f.leastFull) (y := o + 2001 / 1000 * κ)
    (by decide) (by linarith) (by positivity)
  have hsolution := hshare (k := 10) (by decide) (le_refl κ) hκ
  have hdet := hshare (k := 5) (by decide) (le_refl κ) hκ
  have hu0 := mul_nonneg hu h0
  have hu1 := mul_nonneg hu h1
  have hu2 := mul_nonneg hu h2
  have huo := mul_nonneg hu ho
  have huκ := mul_nonneg hu hκ
  push_cast at hpoint hline hsolution hdet
  linarith

/-- The two points are as close as the reach and the condition allow. -/
theorem gap_le_of_crossing (h : t.crossing l = .hit u v s)
    (hdet : (t.determinant l.direction).IsFinite) (hp : (t.pointAt u v).All IsFinite)
    (hq : (l.pointAt s).All IsFinite) :
    (t.pointAt u v).gap (l.pointAt s) ≤
      2 * f.roundoff * (6 * t.reach l + 23 * t.condition l) := by
  obtain ⟨hpass, -⟩ := crossing_eq_hit_iff.1 h
  have hdet0 : (t.determinant l.direction).value ≠ 0 := fun h0 =>
    hpass.not_parallel (abs_le_minPositive_of_value_eq_zero hdet.1 h0)
  -- the two points are finite, so everything that they are computed from is
  obtain ⟨he0, -, he1⟩ := isFinite_of_determinant hdet
  obtain ⟨hx, hgv⟩ := isFinite_of_add hp.1
  have hu := (isFinite_of_mul (isFinite_of_add hx).2).2
  have hv := (isFinite_of_mul hgv).2
  have hs := (isFinite_of_mul (isFinite_of_add hq.1).2).2
  have ha : (l.origin - t.v0).All IsFinite :=
    (Vec3.isFinite_of_dot (isFinite_of_mul (hpass.u_eq ▸ hu)).2).1
  obtain ⟨⟨-, hu1⟩, -, hv1⟩ := (hpass.inRange_iff.2 ⟨hu.1, hv.1⟩).le_one
  -- the residual of the linear system, and what the points lose beside it
  obtain ⟨au, av, as⟩ := hpass.approx hdet hu hv hs
  have adet : |(t.determinant l.direction).value - t.edge0.volume l.direction t.edge1| ≤
      f.growth 5 * t.edge0.shareExtent l.direction t.edge1 (t.determinant l.direction) *
        |(t.determinant l.direction).value| := (Vec3.approx_volume hdet).error_divisor hdet0
  have hgap := gap_le_of_residual hp hq ha hu1 hv1 fun i => residual_le hdet0
    (Vec3.volume_solves t.edge0 t.edge1 (l.origin - t.v0) l.direction i) au.error av.error
    as.error adet
  -- along each of the four vectors, the error of the solution is measured by the condition
  obtain ⟨h0, h1, hd, hoff⟩ := t.mul_shareExtent_le l
  have hscale : ∀ {w x : ℚ} (k : Nat), w * x ≤ t.condition l →
      w * (f.growth k * x) ≤ f.growth k * t.condition l := fun k hwx => by
    rw [mul_left_comm]
    exact mul_le_mul_of_nonneg_left hwx (f.growth_nonneg k)
  refine hgap.trans (roundings_le t.v0.extent_nonneg t.v1.extent_nonneg t.v2.extent_nonneg
    l.origin.extent_nonneg (t.leastFull_le_condition l) (Vec3.extent_sub_le he0)
    (Vec3.extent_sub_le he1) ?_ ?_)
  · have hparam := mul_le_mul_of_nonneg_left as.abs_value_le l.direction.extent_nonneg
    linarith [hscale 10 hd]
  · linarith [hscale 10 h0, hscale 10 h1, hscale 10 hd, hscale 5 hoff]

/-- The point that is reported for a hit and the point at the parameter of the line, where both are
finite and the determinant does not overflow (`Triangle::point_at` in `intersect_line_with_tri`).
They are not farther apart than the reach and the condition say, in multiples of the distance from
one to the number above it. So they are equal up to roundoff if both of these are small enough
against the size of the points. -/
theorem equivalent_reconstructions (h : t.crossing l = .hit u v s)
    (hdet : (t.determinant l.direction).IsFinite) (hp : (t.pointAt u v).All IsFinite)
    (hq : (l.pointAt s).All IsFinite) :
    t.hit? l = some (t.pointAt u v) ∧
      (t.pointAt u v).gap (l.pointAt s) ≤
        2 * f.roundoff * (6 * t.reach l + 23 * t.condition l) ∧
      (6 * t.reach l + 23 * t.condition l ≤
          99 * (1 + (t.pointAt u v).extent + (l.pointAt s).extent) →
        (t.pointAt u v).equivalent (l.pointAt s) = true) := by
  have hgap := gap_le_of_crossing h hdet hp hq
  refine ⟨hit?_eq_some_iff_crossing.2 ⟨u, v, s, h, rfl⟩, hgap, fun hsmall => ?_⟩
  have hscaled := mul_le_mul_of_nonneg_left hsmall (mul_nonneg two_pos.le f.roundoff_pos.le)
  exact Vec3.equivalent_of_gap_le hp hq (hgap.trans (by linarith))

/-- A ray from above that is not perpendicular to the triangle. -/
theorem equivalent_reconstructions_slanted :
    (⟨0, ⟨1, 0, 0⟩, ⟨0, 1, 0⟩⟩ : Triangle Binary32).crossing
        (Ray.mk ⟨0, 0, 1⟩ ⟨Scalar.ofFraction 1 3, Scalar.ofFraction 1 5, -1⟩).line =
          .hit (Scalar.ofFraction 1 3) (Scalar.ofFraction 1 5) 1 ∧
      ((⟨0, ⟨1, 0, 0⟩, ⟨0, 1, 0⟩⟩ : Triangle Binary32).pointAt (Scalar.ofFraction 1 3)
        (Scalar.ofFraction 1 5)).equivalent ((Ray.mk ⟨0, 0, 1⟩
          ⟨Scalar.ofFraction 1 3, Scalar.ofFraction 1 5, -1⟩).line.pointAt 1) = true := by
  have h : (⟨0, ⟨1, 0, 0⟩, ⟨0, 1, 0⟩⟩ : Triangle Binary32).crossing
      (Ray.mk ⟨0, 0, 1⟩ ⟨Scalar.ofFraction 1 3, Scalar.ofFraction 1 5, -1⟩).line =
        .hit (Scalar.ofFraction 1 3) (Scalar.ofFraction 1 5) 1 := by decide +kernel
  obtain ⟨-, -, hequivalent⟩ := equivalent_reconstructions h (by decide +kernel)
    (by decide +kernel) (by decide +kernel)
  exact ⟨h, hequivalent (by decide +kernel)⟩

/-- A triangle and a ray of finite components, for which the query finds a crossing whose two points
are not equal up to roundoff. -/
def DisagreesAt (t : Triangle (Binary f)) (r : Ray (Binary f)) (u v s : Binary f) : Prop :=
  (t.v0.All IsFinite ∧ t.v1.All IsFinite ∧ t.v2.All IsFinite) ∧
    (r.origin.All IsFinite ∧ r.direction.All IsFinite) ∧ t.crossing r.line = .hit u v s ∧
    t.hit? r.line = some (t.pointAt u v) ∧ (t.pointAt u v).equivalent (r.line.pointAt s) = false

instance (t : Triangle (Binary f)) (r : Ray (Binary f)) (u v s : Binary f) :
    Decidable (t.DisagreesAt r u v s) :=
  inferInstanceAs (Decidable ((_ ∧ _ ∧ _) ∧ (_ ∧ _) ∧ _ ∧ _ ∧ _))

/-- A triangle that is hit near the origin of the coordinates but is very large, one that is hit by
a ray almost in its plane, and one whose determinant overflows. -/
theorem not_equivalent_reconstructions :
    DisagreesAt
      (⟨⟨-ofNat (2 ^ 20), -ofNat (2 ^ 20), 0⟩, ⟨ofNat (2 ^ 20), 0, 0⟩, ⟨0, ofNat (2 ^ 20), 0⟩⟩ :
        Triangle Binary32)
      ⟨⟨ofBits 0x3eaaaaab, ofBits 0xbf2aaaab, 1⟩, ⟨ofBits 0x3f2aaaab, ofBits 0xbfaaaaab, -1⟩⟩
      (ofBits 0x3eaaaad7) (ofBits 0x3eaaaa75) 1 ∧
    DisagreesAt (⟨0, ⟨1, -1, 0⟩, ⟨0, 1, -1⟩⟩ : Triangle Binary32)
      ⟨⟨ofBits 0xbeaaaaab, ofBits 0xbfaaaaab, ofBits 0x3fd55516⟩,
        ⟨ofBits 0x3eaaaaab, 1, ofBits 0xbfaaaa80⟩⟩
      (ofBits 0x3e27ac2a) (ofBits 0x3e8fb824) (ofBits 0x3fbfa030) ∧
    DisagreesAt (⟨0, ⟨ofNat (2 ^ 50), 0, 0⟩, ⟨0, ofNat (2 ^ 50), 0⟩⟩ : Triangle Binary32)
      ⟨⟨1, 1, 1⟩, ⟨0, 0, -ofNat (2 ^ 50)⟩⟩ 0 0 0 := by
  decide +kernel

end Triangle

end HitTest
