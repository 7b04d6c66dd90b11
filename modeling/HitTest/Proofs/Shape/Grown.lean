import HitTest.Proofs.Binary.Magnitude
import HitTest.Proofs.Binary.Roundoff
import HitTest.Proofs.Query.Inside

/-!
# Growing a sphere by points (`Sphere::expand_by`)

A sphere of finite center and radius that is grown to contain a finite point is again one, and has
not become smaller, if the distance of the point from the center is finite. The distance is the root
of a square then, and so far from the end of the format that nothing else overflows: the new radius
is halfway from the old one to the distance, and the center moves by a share of the way that is
between zero and one.

If the distance overflows, the center is lost, for an infinite radius is divided by an infinite
distance. The sphere never recovers from that, and is never found to be empty. So all is well with a
run exactly as long as no distance overflows, which does not happen to points that are not too far
out.
-/

namespace HitTest

open Binary hiding min max

variable {f : Format}

/-! ## Far from the end of the format -/

theorem Format.two_mul_half_exponentBound (f : Format) :
    2 * (f.exponentBound / 2) = f.exponentBound := by cases f <;> rfl

/-- The root of the end of the format. -/
def Format.rootBound (f : Format) : ℚ := 2 ^ (f.exponentBound / 2)

namespace Format

theorem rootBound_mul_self (f : Format) : f.rootBound * f.rootBound = f.valueAt f.top := by
  rw [rootBound, ← pow_add, ← two_mul, two_mul_half_exponentBound, valueAt_top_eq]

theorem rootBound_pos (f : Format) : 0 < f.rootBound := pow_pos two_pos _

/-- It is less than half a step of the last numbers. -/
theorem rootBound_lt (f : Format) : f.rootBound < f.roundoff * f.valueAt f.top / 2 := by
  have hroom : f.exponentBound / 2 + (f.fractionBits + 2) < f.exponentBound := by
    cases f <;> decide
  have heq : f.roundoff * f.valueAt f.top / 2 = 2 ^ f.exponentBound / 2 ^ (f.fractionBits + 2) := by
    rw [valueAt_top_eq, roundoff, leading_eq_pow]
    push_cast
    ring
  rw [heq, rootBound, lt_div_iff₀ (by positivity), ← pow_add]
  exact pow_lt_pow_right₀ one_lt_two hroom

theorem two_mul_rootBound_lt (f : Format) : 2 * f.rootBound < f.valueAt f.top := by
  have hlt := f.rootBound_lt
  have hle := mul_le_mul_of_nonneg_right (f.roundoff_le.trans (by norm_num : _ ≤ (1 : ℚ)))
    (f.rootBound_mul_self ▸ mul_self_nonneg f.rootBound : 0 ≤ f.valueAt f.top)
  linarith

end Format

namespace Binary

variable {x y z c p r d : Binary f}

/-- What has a finite square is below the root of the end. -/
theorem abs_value_lt_rootBound (h : (x * x).IsFinite) : |x.value| < f.rootBound := by
  by_contra hge
  have hx := (isFinite_of_mul h).1
  have hle : (signedInfinity false : Binary f).value ≤ (x * x).value := by
    refine (rounds_mul hx hx).le_value rfl ?_
    rw [value_signedInfinity_false, ← f.rootBound_mul_self, ← abs_mul_abs_self x.value]
    exact mul_self_le_mul_self f.rootBound_pos.le (not_lt.1 hge)
  rw [value_signedInfinity_false] at hle
  exact (lt_of_le_of_lt (le_abs_self _) h.abs_value_lt).not_ge hle

theorem isFinite_of_sqrt (h0 : 0 ≤ x) (h : x.sqrt.IsFinite) : x.IsFinite := by
  rcases isFinite_or_infinite_of_nonneg h0 with hx | rfl
  · exact hx
  · rw [sqrt_signedInfinity] at h
    exact absurd rfl (isFinite_number.1 h)

theorem value_sqrt_le_rootBound (hx : x.IsFinite) (h0 : 0 ≤ x) : x.sqrt.value ≤ f.rootBound := by
  have hpos := f.exponentBound_pos
  obtain ⟨y, hy, hv⟩ := exists_value_pow (f := f) (k := f.exponentBound / 2) (by omega)
  have hroot : RoundsRoot (f.rootBound * f.rootBound) y :=
    .of_rounds f.rootBound_pos.le (by rw [Format.rootBound, ← hv]; exact .self hy.1)
  have hle := (roundsRoot_sqrt hx h0).value_le_value hroot (by
    rw [f.rootBound_mul_self]
    exact ((le_abs_self _).trans_lt hx.abs_value_lt).le)
  rwa [hv] at hle

/-! ## One step, by parts -/

/-- The radius halfway to a distance is between the old radius and the distance. -/
theorem halfway_between (hr : r.IsFinite) (hd : d.IsFinite) (h0 : 0 ≤ r.value)
    (hle : r.value ≤ d.value) (hbig : 2 * d.value < f.valueAt f.top) :
    ((r + d) / (Scalar.two : Binary f)).IsFinite ∧
      r.value ≤ ((r + d) / (Scalar.two : Binary f)).value ∧
      ((r + d) / (Scalar.two : Binary f)).value ≤ d.value := by
  have hd0 := h0.trans hle
  obtain ⟨hlow, hup⟩ := value_add_between hr hd (by rw [abs_of_nonneg h0]; linarith)
    (by rw [abs_of_nonneg hd0]; linarith) hle
  have hsum : (r + d).IsFinite := by
    refine isFinite_of_abs_lt (rounds_add hr hd).isNumber ?_
    rw [abs_of_nonneg (by linarith)]
    linarith
  have hhalf := rounds_div hsum (isFinite_two (f := f)) (by rw [value_two]; norm_num)
  rw [value_two] at hhalf
  refine ⟨hhalf.isFinite_of_abs_le hd ?_, hhalf.le_value hr.1 (by linarith),
    hhalf.value_le hd.1 (by linarith)⟩
  rw [abs_of_nonneg (by linarith)]
  linarith

/-- A number that is at least zero and at most one. -/
structure IsShare (t : Binary f) : Prop where
  isFinite : t.IsFinite
  nonneg : 0 ≤ t.value
  le_one : t.value ≤ 1

/-- The growth of the radius is a share of the distance. -/
theorem isShare_sub_div (hr : r.IsFinite) (hd : d.IsFinite) (hz : z.IsFinite) (h0 : 0 ≤ r.value)
    (hrz : r.value ≤ z.value) (hzd : z.value ≤ d.value) (hpos : 0 < d.value) :
    IsShare ((z - r) / d) := by
  have hdiff := rounds_sub hz hr
  have hdiff0 := hdiff.value_nonneg (by linarith)
  have hdiff1 := hdiff.value_le hd.1 (by linarith)
  have hfin := hdiff.isFinite_of_abs_le hd (by rw [abs_of_nonneg (by linarith)]; linarith)
  have hquot := rounds_div hfin hd hpos.ne'
  have h1 : ((z - r) / d).value ≤ 1 := by
    rw [← value_one (f := f)]
    exact hquot.value_le isFinite_one.1 (by rw [value_one]; exact (div_le_one hpos).2 hdiff1)
  have h2 := hquot.value_nonneg (div_nonneg hdiff0 hpos.le)
  exact ⟨isFinite_of_abs_le_four hquot.isNumber (by rw [abs_of_nonneg h2]; linarith), h2, h1⟩

/-- A share of a number is between zero and the number. -/
theorem IsShare.mul_between {t : Binary f} (ht : t.IsShare) (hx : x.IsFinite) :
    Min.min 0 x.value ≤ (x * t).value ∧ (x * t).value ≤ Max.max 0 x.value := by
  have hround := rounds_mul hx ht.isFinite
  rcases le_total 0 x.value with h | h
  · have hle := mul_le_of_le_one_right h ht.le_one
    rw [min_eq_left h, max_eq_right h]
    exact ⟨hround.value_nonneg (mul_nonneg h ht.nonneg), hround.value_le hx.1 hle⟩
  · have hge : x.value ≤ x.value * t.value := by nlinarith [ht.le_one]
    rw [min_eq_right h, max_eq_left h]
    exact ⟨hround.le_value hx.1 hge,
      hround.value_nonpos (mul_nonpos_of_nonpos_of_nonneg h ht.nonneg)⟩

theorem IsShare.abs_mul_le {t : Binary f} (ht : t.IsShare) (hx : x.IsFinite) :
    |(x * t).value| ≤ |x.value| := by
  obtain ⟨hlow, hup⟩ := ht.mul_between hx
  rcases le_total 0 x.value with h | h
  · rw [min_eq_left h] at hlow
    rw [max_eq_right h] at hup
    rwa [abs_of_nonneg hlow, abs_of_nonneg h]
  · rw [min_eq_right h] at hlow
    rw [max_eq_left h] at hup
    rw [abs_of_nonpos hup, abs_of_nonpos h]
    linarith

theorem IsShare.isFinite_mul {t : Binary f} (ht : t.IsShare) (hx : x.IsFinite) :
    (x * t).IsFinite :=
  isFinite_of_abs_lt (rounds_mul hx ht.isFinite).isNumber
    ((ht.abs_mul_le hx).trans_lt hx.abs_value_lt)

/-- A coordinate that moves by a share of a difference whose square is finite does not overflow. -/
theorem isFinite_add_share {t : Binary f} (hc : c.IsFinite) (hx : x.IsFinite)
    (hsmall : |x.value| < f.rootBound) (ht : t.IsShare) : (c + x * t).IsFinite := by
  refine (rounds_add hc (ht.isFinite_mul hx)).isFinite_of_near hc ?_
  rw [add_sub_cancel_left]
  exact (ht.abs_mul_le hx).trans_lt (hsmall.trans f.rootBound_lt)

/-- Between a coordinate and a point that is less than half as far out it stays on its scale. -/
theorem Within.add_share {t : Binary f} {k : Nat} (hc : Within (k + 1) c) (hp : Within k p)
    (ht : t.IsShare) (hk : k + 2 < f.exponentBound) : Within (k + 1) (c + (p - c) * t) := by
  have hcf := hc.isFinite (by omega)
  have hpf := hp.isFinite (by omega)
  have hdiff : Within (k + 2) (p - c) := (hp.mono (by omega)).sub hc hk
  have hxf := hdiff.isFinite hk
  have herror := sub_error hpf hcf hxf
  obtain ⟨hlow, hup⟩ := ht.mul_between hxf
  refine .of_rounds (rounds_add hcf (ht.isFinite_mul hxf)) ?_ (by omega)
  obtain ⟨hc1, hc2⟩ := abs_le.1 hc.le
  obtain ⟨hp1, hp2⟩ := abs_le.1 hp.le
  rw [pow_succ] at hc1 hc2 ⊢
  -- the rounded difference reaches beyond the point by its own roundoff
  have hbeyond : |(p - c).value - (p.value - c.value)| ≤ 2 ^ k := by
    have hfar : |p.value - c.value| ≤ 3 * 2 ^ k := abs_le.2 ⟨by linarith, by linarith⟩
    have hu := f.roundoff_le
    have hu0 := f.roundoff_pos
    calc |(p - c).value - (p.value - c.value)| ≤ f.roundoff * |p.value - c.value| := herror
      _ ≤ 1 / 2 ^ 24 * (3 * 2 ^ k) := mul_le_mul hu hfar (abs_nonneg _) (by positivity)
      _ ≤ 2 ^ k := by linarith [pow_pos (two_pos (α := ℚ)) k]
  obtain ⟨he1, he2⟩ := abs_le.1 hbeyond
  refine abs_le.2 ⟨?_, ?_⟩
  · rcases min_choice (0 : ℚ) (p - c).value with h | h <;> rw [h] at hlow <;> linarith
  · rcases max_choice (0 : ℚ) (p - c).value with h | h <;> rw [h] at hup <;> linarith

end Binary

namespace Sphere

/-! ## One step -/

/-- A sphere of finite center and finite radius that is not empty. -/
structure IsSound (s : Sphere (Binary f)) : Prop where
  center : s.center.All IsFinite
  radius : s.radius.IsFinite
  nonneg : 0 ≤ s.radius

variable {s : Sphere (Binary f)} {p : Vec3 (Binary f)} {ps : List (Vec3 (Binary f))} {k : Nat}

theorem expandBy_of_isEmpty (h : s.isEmpty = true) (p : Vec3 (Binary f)) :
    s.expandBy p = ⟨p, 0⟩ := by
  rw [expandBy, if_pos h]

theorem isSound_point (hp : p.All IsFinite) : IsSound ⟨p, 0⟩ :=
  ⟨hp, ⟨rfl, by simpa using f.top_pos⟩, Binary.le_refl rfl⟩

namespace IsSound

theorem isEmpty_eq_false (h : s.IsSound) : s.isEmpty = false := Sphere.isEmpty_eq_false h.nonneg

/-- What a step does to a sphere that is not empty. -/
theorem expandBy_eq (h : s.IsSound) (p : Vec3 (Binary f)) : s.expandBy p =
    if s.center.dist p ≤ s.radius then s
    else ⟨s.center + (p - s.center) *
        (((s.radius + s.center.dist p) / (Scalar.two : Binary f) - s.radius) / s.center.dist p),
      (s.radius + s.center.dist p) / (Scalar.two : Binary f)⟩ := by
  rw [expandBy, h.isEmpty_eq_false, if_neg Bool.false_ne_true]

theorem distSq_nonneg (h : s.IsSound) (hp : p.All IsFinite) : 0 ≤ s.center.distSq p :=
  Vec3.normSq_nonneg ⟨hp.1.isNumber_sub h.center.1.1, hp.2.1.isNumber_sub h.center.2.1.1,
    hp.2.2.isNumber_sub h.center.2.2.1⟩

/-- Where the distance is finite and above the radius, the new radius is between them, and the
center moves by a share of the difference. -/
theorem isShare_shift (h : s.IsSound) (hp : p.All IsFinite) (hd : (s.center.dist p).IsFinite)
    (hlt : ¬ s.center.dist p ≤ s.radius) :
    ((s.radius + s.center.dist p) / (Scalar.two : Binary f)).IsFinite ∧
      s.radius ≤ (s.radius + s.center.dist p) / (Scalar.two : Binary f) ∧
      IsShare (((s.radius + s.center.dist p) / (Scalar.two : Binary f) - s.radius) /
        s.center.dist p) := by
  have hsq := h.distSq_nonneg hp
  have hbound : (s.center.dist p).value ≤ f.rootBound :=
    value_sqrt_le_rootBound (isFinite_of_sqrt hsq hd) hsq
  have h0 := (nonneg_iff.1 h.nonneg).2
  rw [Binary.not_le hd.1 h.radius.1, lt_iff_value h.radius.1 hd.1] at hlt
  have hbig : 2 * (s.center.dist p).value < f.valueAt f.top := by linarith [f.two_mul_rootBound_lt]
  obtain ⟨hfin, hlow, hup⟩ := halfway_between h.radius hd h0 hlt.le hbig
  exact ⟨hfin, (le_iff_value h.radius.1 hfin.1).2 hlow,
    isShare_sub_div h.radius hd hfin h0 hlow hup (h0.trans_lt hlt)⟩

/-- A step with a finite distance keeps the sphere sound, and does not make it smaller. -/
theorem expandBy (h : s.IsSound) (hp : p.All IsFinite) (hd : (s.center.dist p).IsFinite) :
    (s.expandBy p).IsSound ∧ s.radius ≤ (s.expandBy p).radius := by
  rw [h.expandBy_eq]
  split
  · exact ⟨h, Binary.le_refl h.radius.1⟩
  · rename_i hlt
    obtain ⟨hfin, hle, hshare⟩ := h.isShare_shift hp hd hlt
    have hsq := isFinite_of_sqrt (h.distSq_nonneg hp) hd
    obtain ⟨hxy, hz⟩ := isFinite_of_add hsq
    obtain ⟨hx, hy⟩ := isFinite_of_add hxy
    have hmoved : ∀ {c x : Binary f}, c.IsFinite → (x * x).IsFinite → _ := fun hc hx =>
      isFinite_add_share hc (isFinite_of_mul hx).1 (abs_value_lt_rootBound hx) hshare
    exact ⟨⟨⟨hmoved h.center.1 hx, hmoved h.center.2.1 hy, hmoved h.center.2.2 hz⟩, hfin,
      Binary.le_trans h.nonneg hle⟩, hle⟩

/-- A step with a distance that overflows loses the center. -/
theorem expandBy_eq_lost (h : s.IsSound) (hp : p.All IsFinite)
    (hd : ¬ (s.center.dist p).IsFinite) : s.expandBy p = ⟨⟨nan, nan, nan⟩, infinity⟩ := by
  have hinf : s.center.dist p = signedInfinity false :=
    (isFinite_or_infinite_of_nonneg (sqrt_nonneg (h.distSq_nonneg hp))).resolve_left hd
  have hbeyond : ¬ s.center.dist p ≤ s.radius := by
    intro hle
    rw [hinf] at hle
    have hradius := h.radius
    rw [eq_infinity_of_le hle] at hradius
    exact isFinite_number.1 hradius rfl
  have hsum : s.radius + signedInfinity false = signedInfinity false := by
    rw [Binary.add_comm]
    exact signedInfinity_add (Binary.add_comm _ s.radius ▸ h.radius.isNumber_add rfl)
  have htwo : (0 : Binary f) < Scalar.two :=
    pos_iff.2 ⟨isFinite_two.1, by rw [value_two]; norm_num⟩
  have hcoord : ∀ x y : Binary f, x + y * nan = nan := by simp
  rw [h.expandBy_eq, if_neg hbeyond]
  rw [hinf, hsum, signedInfinity_div isFinite_two htwo, signedInfinity_sub false h.radius,
    signedInfinity_div_signedInfinity]
  exact congrArg₂ Sphere.mk (Vec3.ext (hcoord _ _) (hcoord _ _) (hcoord _ _)) rfl

end IsSound

/-- A sphere whose center is lost, and which is not found to be empty. -/
structure IsLost (s : Sphere (Binary f)) : Prop where
  center : s.center = ⟨nan, nan, nan⟩
  isEmpty_eq_false : s.isEmpty = false

theorem isLost_infinity : IsLost (⟨⟨nan, nan, nan⟩, infinity⟩ : Sphere (Binary f)) :=
  ⟨rfl, by cases f <;> rfl⟩

theorem IsLost.not_isSound (h : s.IsLost) : ¬ s.IsSound := by
  intro hs
  have hnan := hs.center.1.1
  rw [h.center] at hnan
  cases hnan

theorem IsLost.expandBy_eq (h : s.IsLost) (p : Vec3 (Binary f)) :
    s.expandBy p = ⟨⟨nan, nan, nan⟩, nan⟩ := by
  have hdist : s.center.dist p = nan := by
    have hsq : s.center.distSq p = nan := by
      rw [h.center]
      simp [Vec3.distSq, Vec3.normSq, Vec3.dot]
    rw [Vec3.dist, hsq]
    exact sqrt_nan
  rw [expandBy, h.isEmpty_eq_false, if_neg Bool.false_ne_true, hdist, h.center]
  dsimp only
  rw [if_neg (not_nan_le _), add_nan, nan_div]
  rfl

theorem IsLost.expandBy (h : s.IsLost) (p : Vec3 (Binary f)) : (s.expandBy p).IsLost := by
  rw [h.expandBy_eq]
  exact ⟨rfl, by cases f <;> rfl⟩

/-- A sphere to begin with: an empty one, or a sound one. -/
def IsProper (s : Sphere (Binary f)) : Prop := s.isEmpty = true ∨ s.IsSound

/-- The distance of a point, which is asked for unless the sphere is empty, does not overflow. -/
def Reaches (s : Sphere (Binary f)) (p : Vec3 (Binary f)) : Prop :=
  s.isEmpty = false → (s.center.dist p).IsFinite

theorem IsProper.expandBy (h : s.IsProper) (hp : p.All IsFinite) (hd : s.Reaches p) :
    (s.expandBy p).IsSound ∧ s.radius ≤ (s.expandBy p).radius := by
  rcases h with h | h
  · have hneg : s.radius < 0 := of_decide_eq_true h
    rw [expandBy_of_isEmpty h]
    exact ⟨isSound_point hp, Binary.le_of_lt hneg⟩
  · exact h.expandBy hp (hd h.isEmpty_eq_false)

theorem IsProper.expandBy_eq_lost (h : s.IsProper) (hp : p.All IsFinite) (hd : ¬ s.Reaches p) :
    s.expandBy p = ⟨⟨nan, nan, nan⟩, infinity⟩ := by
  obtain ⟨hne, hinf⟩ := Classical.not_imp.1 hd
  rcases h with h | h
  · rw [h] at hne
    cases hne
  · exact h.expandBy_eq_lost hp hinf

/-! ## Runs -/

/-- The sphere that is grown by one point after the other. -/
def grown (s : Sphere (Binary f)) (ps : List (Vec3 (Binary f))) : Sphere (Binary f) :=
  ps.foldl expandBy s

/-- No distance overflows on a run. -/
def Fits : Sphere (Binary f) → List (Vec3 (Binary f)) → Prop
  | _, [] => True
  | s, p :: ps => s.Reaches p ∧ Fits (s.expandBy p) ps

theorem fits_append_singleton : s.Fits (ps ++ [p]) ↔ s.Fits ps ∧ (s.grown ps).Reaches p := by
  induction ps generalizing s with
  | nil => simp [Fits, grown]
  | cons q ps ih => rw [List.cons_append, Fits, Fits, ih, and_assoc]; rfl

theorem IsProper.grown (hs : s.IsProper) (hps : ∀ q ∈ ps, q.All IsFinite) (hfit : s.Fits ps) :
    (s.grown ps).IsProper := by
  induction ps generalizing s with
  | nil => exact hs
  | cons q ps ih =>
    obtain ⟨hq, hps⟩ := List.forall_mem_cons.1 hps
    exact ih (.inr (hs.expandBy hq hfit.1).1) hps hfit.2

theorem IsLost.grown (hs : s.IsLost) (ps : List (Vec3 (Binary f))) : (s.grown ps).IsLost := by
  induction ps generalizing s with
  | nil => exact hs
  | cons q ps ih => exact ih (hs.expandBy q)

/-- The first distance that overflows loses the center for the rest of the run. -/
theorem IsProper.isLost_grown (hs : s.IsProper) (hps : ∀ q ∈ ps, q.All IsFinite)
    (hfit : ¬ s.Fits ps) : (s.grown ps).IsLost := by
  induction ps generalizing s with
  | nil => exact absurd trivial hfit
  | cons q ps ih =>
    obtain ⟨hq, hps⟩ := List.forall_mem_cons.1 hps
    by_cases hd : s.Reaches q
    · exact ih (.inr (hs.expandBy hq hd).1) hps fun h => hfit ⟨hd, h⟩
    · have hlost : (s.expandBy q).IsLost := by
        rw [hs.expandBy_eq_lost hq hd]
        exact isLost_infinity
      exact hlost.grown ps

/-! ## Points that are not too far out -/

/-- A center that is not much farther out than the points reaches them. -/
theorem reaches_of_within (hc : s.isEmpty = false → s.center.All (Within (k + 1)))
    (hp : p.All (Within k)) (hk : 2 * k + 6 < f.exponentBound) : s.Reaches p := by
  intro hne
  have hdiff := Vec3.within_sub (hp.within_mono (by omega)) (hc hne) (by omega)
  have hsq : Within (2 * (k + 3)) (s.center.distSq p) :=
    (Vec3.within_dot hdiff hdiff (by omega)).mono (by omega)
  have h0 := Vec3.normSq_nonneg (hdiff.mono fun _ h => h.isNumber)
  exact (hsq.sqrt h0 (by omega)).isFinite (by omega)

theorem IsProper.within_expandBy (hs : s.IsProper)
    (hc : s.isEmpty = false → s.center.All (Within (k + 1))) (hp : p.All (Within k))
    (hk : 2 * k + 6 < f.exponentBound) : (s.expandBy p).center.All (Within (k + 1)) := by
  rcases hs with h | h
  · rw [expandBy_of_isEmpty h]
    exact hp.within_mono (by omega)
  · have hd := reaches_of_within hc hp hk h.isEmpty_eq_false
    have hcenter := hc h.isEmpty_eq_false
    have hpf : p.All IsFinite := hp.mono fun _ hx => hx.isFinite (by omega)
    rw [h.expandBy_eq]
    split
    · exact hcenter
    · rename_i hlt
      obtain ⟨-, -, hshare⟩ := h.isShare_shift hpf hd hlt
      exact ⟨hcenter.1.add_share hp.1 hshare (by omega),
        hcenter.2.1.add_share hp.2.1 hshare (by omega),
        hcenter.2.2.add_share hp.2.2 hshare (by omega)⟩

theorem IsProper.fits_of_within (hs : s.IsProper)
    (hc : s.isEmpty = false → s.center.All (Within (k + 1)))
    (hps : ∀ q ∈ ps, q.All (Within k)) (hk : 2 * k + 6 < f.exponentBound) : s.Fits ps := by
  induction ps generalizing s with
  | nil => trivial
  | cons q ps ih =>
    obtain ⟨hq, hps⟩ := List.forall_mem_cons.1 hps
    have hd := reaches_of_within hc hq hk
    have hqf : q.All IsFinite := hq.mono fun _ hx => hx.isFinite (by omega)
    exact ⟨hd, ih (.inr (hs.expandBy hqf hd).1) (fun _ => hs.within_expandBy hc hq hk) hps⟩

/-- After every step of a run over finite points, from an empty or a sound sphere, the sphere is not
empty (`Sphere::expand_by`). It is sound if and only if no distance has overflowed, and then it has
not become smaller, and is a point if it was empty. The first step on which a distance overflows
loses the center and makes the radius infinite, and any later step loses the radius too. No distance
overflows where the coordinates of the points are bounded by a power of two that is small enough,
and so is the center by twice that. -/
theorem isSound_expandBy_grown_iff (hs : s.IsProper) (hps : ∀ q ∈ ps, q.All IsFinite)
    (hp : p.All IsFinite) :
    ((s.grown ps).expandBy p).isEmpty = false ∧
    (((s.grown ps).expandBy p).IsSound ↔ s.Fits (ps ++ [p])) ∧
    (s.Fits (ps ++ [p]) → (s.grown ps).radius ≤ ((s.grown ps).expandBy p).radius ∧
      ((s.grown ps).isEmpty = true → (s.grown ps).expandBy p = ⟨p, 0⟩)) ∧
    (s.Fits ps → ¬ s.Fits (ps ++ [p]) →
      (s.grown ps).expandBy p = ⟨⟨nan, nan, nan⟩, infinity⟩) ∧
    (¬ s.Fits ps → (s.grown ps).expandBy p = ⟨⟨nan, nan, nan⟩, nan⟩) ∧
    ∀ k, 2 * k + 6 < f.exponentBound → (s.isEmpty = false → s.center.All (Within (k + 1))) →
      (∀ q ∈ ps ++ [p], q.All (Within k)) → s.Fits (ps ++ [p]) := by
  have hstep : s.Fits (ps ++ [p]) → ((s.grown ps).expandBy p).IsSound ∧
      (s.grown ps).radius ≤ ((s.grown ps).expandBy p).radius := by
    intro hfit
    obtain ⟨hbefore, hd⟩ := fits_append_singleton.1 hfit
    exact (hs.grown hps hbefore).expandBy hp hd
  have hfirst : s.Fits ps → ¬ s.Fits (ps ++ [p]) →
      (s.grown ps).expandBy p = ⟨⟨nan, nan, nan⟩, infinity⟩ := by
    intro hbefore hfit
    refine (hs.grown hps hbefore).expandBy_eq_lost hp fun hd => hfit ?_
    exact fits_append_singleton.2 ⟨hbefore, hd⟩
  have hlost : ¬ s.Fits (ps ++ [p]) → ((s.grown ps).expandBy p).IsLost := by
    intro hfit
    by_cases hbefore : s.Fits ps
    · rw [hfirst hbefore hfit]
      exact isLost_infinity
    · exact (hs.isLost_grown hps hbefore).expandBy p
  refine ⟨?notEmpty, ?sound, ?larger, hfirst, ?later, ?small⟩
  case notEmpty =>
    by_cases hfit : s.Fits (ps ++ [p])
    · exact (hstep hfit).1.isEmpty_eq_false
    · exact (hlost hfit).isEmpty_eq_false
  case sound =>
    exact ⟨fun h => by_contra fun hfit => (hlost hfit).not_isSound h, fun h => (hstep h).1⟩
  case larger => exact fun hfit => ⟨(hstep hfit).2, fun h => expandBy_of_isEmpty h p⟩
  case later => exact fun hbefore => (hs.isLost_grown hps hbefore).expandBy_eq p
  case small => exact fun k hk hc hwithin => hs.fits_of_within hc hwithin hk

/-- The empty sphere, grown by two points, has become one of radius one half, and is sound. -/
theorem isSound_expandBy_grown_iff_half :
    ((empty.grown [0]).expandBy (⟨1, 0, 0⟩ : Vec3 Binary32)).IsSound ∧
      (empty.grown [(0 : Vec3 Binary32)]).radius ≤
        ((empty.grown [0]).expandBy (⟨1, 0, 0⟩ : Vec3 Binary32)).radius ∧
      (empty.grown []).expandBy (0 : Vec3 Binary32) = ⟨0, 0⟩ := by
  have hone : Vec3.All (Within 0) (⟨1, 0, 0⟩ : Vec3 Binary32) := ⟨.one, .zero, .zero⟩
  have hzero : Vec3.All (Within 0) (0 : Vec3 Binary32) := ⟨.zero, .zero, .zero⟩
  have hempty : (empty : Sphere Binary32).isEmpty = true := by decide
  have hpoints : ∀ q ∈ [(0 : Vec3 Binary32)], q.All IsFinite := by
    intro q hq
    rw [List.mem_singleton.1 hq]
    decide
  obtain ⟨-, hsound, hlarger, -, -, hsmall⟩ := isSound_expandBy_grown_iff (.inl hempty) hpoints
    (by decide : (⟨1, 0, 0⟩ : Vec3 Binary32).All IsFinite)
  have hfit := hsmall 0 (by decide) (by simp [hempty]) (by simp [hone, hzero])
  obtain ⟨-, -, hpoint, -, -, hnear⟩ := isSound_expandBy_grown_iff (.inl hempty)
    (List.forall_mem_nil _) (by decide : (0 : Vec3 Binary32).All IsFinite)
  have hfirst := hnear 0 (by decide) (by simp [hempty]) (by simp [hzero])
  exact ⟨hsound.2 hfit, (hlarger hfit).1, (hpoint hfirst).2 hempty⟩

/-- Two finite points, so far apart that the square of their distance overflows. The sphere around
them has no center. -/
theorem not_isSound_grown :
    (∀ q ∈ [0, (⟨ofNat (2 ^ 100), 0, 0⟩ : Vec3 Binary32)], q.All IsFinite) ∧
      empty.grown [0, (⟨ofNat (2 ^ 100), 0, 0⟩ : Vec3 Binary32)] =
        ⟨⟨nan, nan, nan⟩, infinity⟩ := by
  decide +kernel

end Sphere

end HitTest
