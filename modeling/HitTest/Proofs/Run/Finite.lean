import HitTest.Proofs.Binary.Magnitude
import HitTest.Proofs.Run.Total
import HitTest.Proofs.Run.Wording

/-!
# Drawn configurations are finite

Nothing overflows in a drawn configuration, and so nothing is not a number. Most of it is small. The
exception are the ends of lines broadside of a sphere: a direction is divided by the length of its
cross product with an axis, of which it is only known that it is above zero. Even the least that the
root of a number above zero can be leaves the quotient far below the end of the format.
-/

namespace HitTest

open Binary hiding min max

variable {f : Format} {x : Binary f}

/-! ## Scalars -/

/-- Directions are below two to this power. -/
def Format.directionExponent (f : Format) : Nat := (f.fractionBits + 1) / 2

/-- There is room for what is computed from directions and reciprocals of roots. -/
theorem Format.room (f : Format) :
    f.directionExponent + f.rootExponent + 5 < f.exponentBound ∧
      2 * f.directionExponent + 4 < f.exponentBound ∧ 10 < f.exponentBound := by
  cases f <;> decide

namespace Binary

theorem IsDraw.within (h : IsDraw x) : Within 0 x :=
  ⟨h.isNumber, by rw [abs_of_nonneg h.nonneg, pow_zero]; exact h.le_one⟩

theorem within_two : Within 1 (Scalar.two : Binary f) :=
  ⟨isFinite_two.1, by rw [value_two]; norm_num⟩

theorem within_four : Within 2 (Scalar.four : Binary f) := by
  have hround : Rounds _ (Scalar.four : Binary f) :=
    rounds_convert f (isFinite_ofNat (f := .double) (n := 4) (by decide))
  rw [value_ofNat (by decide)] at hround
  exact .of_rounds hround (by norm_num) (by have := f.room; omega)

theorem value_epsilon : (epsilon : Binary f).value = 2 ^ (-f.fractionBits : Int) := by
  obtain ⟨y, hy, hv⟩ := exists_value_zpow f (j := -f.fractionBits) (by cases f <;> decide)
    (by cases f <;> decide)
  have h : Rounds ((2 : ℚ) ^ (-f.fractionBits : Int)) (epsilon : Binary f) := by
    have := rounds_nearest (f := f) false 1 (-f.fractionBits - f.unitExponent)
    rwa [signFactor_false, Int.cast_one, one_mul, Format.unit, mul_assoc,
      ← zpow_add₀ two_ne_zero, sub_add_cancel, Nat.cast_one, one_mul] at this
  rw [← hv]
  exact le_antisymm (h.value_le hy.1 hv.ge) (h.le_value hy.1 hv.le)

end Binary

/-! ## Directions -/

namespace Vec3

variable {d : Vec3 (Binary f)} {k : Nat}

/-- A vector that is long enough has a direction of a limited size. -/
theorem within_direction (h : Draw.IsDirection IsDraw d) : d.All (Within f.directionExponent) := by
  obtain ⟨v, hv, hlong, rfl⟩ := h
  have hroom := f.room
  have hv0 : v.All (Within 0) := hv.mono fun _ h => h.within
  have hsq := within_dot hv0 hv0 (by omega)
  have hsqfin : v.normSq.IsFinite := hsq.isFinite (by omega)
  have heps := (lt_iff_value rfl hsqfin.1).1 hlong
  have hlow : (2 ^ (2 * f.directionExponent))⁻¹ ≤ v.normSq.value := by
    refine le_trans ?_ heps.le
    rw [show (Scalar.epsilon : Binary f) = epsilon from rfl, value_epsilon, ← zpow_natCast,
      ← zpow_neg]
    exact zpow_le_zpow_right₀ one_le_two (by cases f <;> decide)
  have hpos : 0 ≤ v.normSq := nonneg_iff.2 ⟨hsqfin.1, le_trans (by positivity) hlow⟩
  have hnorm : Within 1 v.norm := Within.sqrt (hsq.mono (by omega)) hpos (by omega)
  have hinv := Within.one.div (hnorm.isFinite (by omega))
    (le_value_sqrt hsqfin hpos (by cases f <;> decide) hlow) (by omega : 0 + _ < f.exponentBound)
  rw [Nat.zero_add] at hinv
  exact (within_mul hv0 hinv (by omega)).within_mono (by omega)

theorem within_shortestAxis (d : Vec3 (Binary f)) : d.shortestAxis.All (Within 0) := by
  unfold shortestAxis
  dsimp only
  split
  · exact ⟨.one, .zero, .zero⟩
  · split
    · exact ⟨.zero, .one, .zero⟩
    · exact ⟨.zero, .zero, .one⟩

/-- A perpendicular direction is divided by a root at most. -/
theorem within_perpendicular (h : d.All (Within k)) (hk : k + f.rootExponent + 1 < f.exponentBound)
    (hk' : 2 * k + 4 < f.exponentBound) :
    d.perpendicular.All (Within (k + f.rootExponent + 1)) := by
  have hp := within_cross h (within_shortestAxis d) (by omega)
  unfold perpendicular
  dsimp only
  generalize d.cross d.shortestAxis = p at hp ⊢
  split
  · rename_i hlength
    have hsq := within_dot hp hp (by omega)
    have hsqfin : p.normSq.IsFinite := hsq.isFinite (by omega)
    have hpos : 0 ≤ p.normSq := normSq_nonneg (hp.mono fun _ hx => hx.isNumber)
    have hnorm : Within (k + 2) p.norm := Within.sqrt (hsq.mono (by omega)) hpos (by omega)
    have hroot := inv_two_pow_le_sqrt hsqfin hpos hlength
    have hfin : p.norm.IsFinite := hnorm.isFinite (by omega)
    have hdiv : ∀ {c : Binary f}, Within (k + 0 + 1) c →
        Within (k + f.rootExponent + 1) (c / p.norm) :=
      fun hc => (hc.div hfin hroot (by omega)).mono (by omega)
    exact ⟨hdiv hp.1, hdiv hp.2.1, hdiv hp.2.2⟩
  · exact hp.within_mono (by omega)

end Vec3

/-! ## Configurations -/

theorem Subject.All.mono {S : Type} {P Q : S → Prop} (h : ∀ s, P s → Q s) {s : Subject S}
    (hs : s.All P) : s.All Q := by
  have hprobe : ∀ {p : Probe S}, p.All P → p.All Q := by
    intro p hp
    cases p <;> exact ⟨hp.1.mono h, hp.2.mono h⟩
  cases s with
  | triangle u v t tri p =>
    obtain ⟨⟨hu, hv, ht⟩, ⟨h0, h1, h2⟩, hp⟩ := hs
    exact ⟨⟨h u hu, h v hv, h t ht⟩, ⟨h0.mono h, h1.mono h, h2.mono h⟩, hprobe hp⟩
  | sphere t s p =>
    obtain ⟨ht, ⟨hcenter, hradius⟩, hp⟩ := hs
    exact ⟨h t ht, ⟨hcenter.mono h, h _ hradius⟩, hprobe hp⟩
  | box b p => exact ⟨⟨hs.1.1.mono h, hs.1.2.mono h⟩, hprobe hs.2⟩

/-- All scalars of both comparisons of a trial are finite. -/
def Trial.IsFinite (t : Trial (Binary f)) : Prop :=
  t.segment.subject.All Binary.IsFinite ∧ t.ray.subject.All Binary.IsFinite

/-- It is enough that they are within bounds. -/
theorem Trial.isFinite_of_within {t : Trial (Binary f)} {k : Nat} (hk : k < f.exponentBound)
    (hsegment : t.segment.subject.All (Within k)) (hray : t.ray.subject.All (Within k)) :
    t.IsFinite :=
  ⟨hsegment.mono fun _ h => h.isFinite hk, hray.mono fun _ h => h.isFinite hk⟩

theorem TriangleLine.isFinite_trial {c : TriangleLine (Binary f)} (h : c.IsDrawn IsDraw) :
    c.trial.IsFinite := by
  have hroom := f.room
  have hvertex : ∀ {p : Vec3 (Binary f)}, p.All IsDraw → p.All (Within 0) :=
    fun hp => hp.mono fun _ h => h.within
  have hcoordinate : ∀ {u : Binary f}, IsCoordinate IsDraw u → Within 3 u := by
    rintro u ⟨x, hx, rfl⟩
    exact Within.sub (within_four.mul hx.within (by omega)) (within_two.mono (by omega)) (by omega)
  obtain ⟨h0, h1, h2, hu, hv, ht, hd⟩ := h
  replace h0 := hvertex h0
  replace h1 := hvertex h1
  replace h2 := hvertex h2
  replace hd := hvertex hd
  replace hu := hcoordinate hu
  replace hv := hcoordinate hv
  replace ht := hcoordinate ht
  have hpoint : c.point.All (Within 6) := by
    have he0 := Vec3.within_mul (Vec3.within_sub h1 h0 (by omega)) hu (by omega)
    have he1 := Vec3.within_mul (Vec3.within_sub h2 h0 (by omega)) hv (by omega)
    exact Vec3.within_add (Vec3.within_add (h0.within_mono (by omega)) he0 (by omega))
      (he1.within_mono (by omega)) (by omega)
  have horigin : c.origin.All (Within 7) :=
    Vec3.within_sub hpoint ((Vec3.within_mul hd ht (by omega)).within_mono (by omega)) (by omega)
  have hfinish : c.segment.finish.All (Within 7) :=
    Vec3.within_add hpoint ((Vec3.within_mul hd (Within.one.sub ht (by omega))
      (by omega)).within_mono (by omega)) (by omega)
  have hscalars : (Within 7 c.u ∧ Within 7 c.v ∧ Within 7 c.t) ∧ c.triangle.All (Within 7) :=
    ⟨⟨hu.mono (by omega), hv.mono (by omega), ht.mono (by omega)⟩, h0.within_mono (by omega),
      h1.within_mono (by omega), h2.within_mono (by omega)⟩
  exact Trial.isFinite_of_within (k := 7) (by omega) ⟨hscalars.1, hscalars.2, horigin, hfinish⟩
    ⟨hscalars.1, hscalars.2, horigin, hd.within_mono (by omega)⟩

namespace SphereLine

variable {c : SphereLine (Binary f)} {a b : Binary f}

/-- The sphere and the distance are small, and the base point is little more than a direction. -/
theorem within_drawn (h : c.IsDrawn IsDraw) : (Within 2 c.distance ∧ c.sphere.All (Within 1)) ∧
    c.direction.All (Within f.directionExponent) ∧
      c.base.All (Within (f.directionExponent + 3)) := by
  have hroom := f.room
  obtain ⟨hcenter, ⟨x, hx, hradius⟩, hd, ⟨y, hy, hdistance⟩⟩ := h
  have hc : c.sphere.center.All (Within 0) := hcenter.mono fun _ h => h.within
  have hr : Within 1 c.sphere.radius := hradius ▸ within_two.mul hx.within (by omega)
  have ht : Within 2 c.distance := hdistance ▸ within_four.mul hy.within (by omega)
  have hd := Vec3.within_direction hd
  refine ⟨⟨ht, hc.within_mono (by omega), hr⟩, hd, ?_⟩
  exact Vec3.within_add (hc.within_mono (by omega)) (Vec3.within_mul hd ht (by omega)) (by omega)

/-- Lines between points that are within bounds. -/
theorem isFinite_trial {start finish : Vec3 (Binary f)} {k : Nat} (h : c.IsDrawn IsDraw)
    (hstart : start.All (Within k)) (hfinish : finish.All (Within k)) (h2 : 2 ≤ k)
    (hk : k + 1 < f.exponentBound) : (c.trial start finish).IsFinite := by
  obtain ⟨⟨ht, hs⟩, -⟩ := within_drawn h
  have hscalars : Within (k + 1) c.distance ∧ c.sphere.All (Within (k + 1)) :=
    ⟨ht.mono (by omega), hs.1.within_mono (by omega), hs.2.mono (by omega)⟩
  have hstart' := hstart.within_mono (Nat.le_succ k)
  have hfinish' := hfinish.within_mono (Nat.le_succ k)
  exact Trial.isFinite_of_within hk ⟨hscalars.1, hscalars.2, hstart', hfinish'⟩
    ⟨hscalars.1, hscalars.2, hstart', Vec3.within_sub hfinish hstart hk⟩

theorem isFinite_crosswise (h : c.IsDrawn IsDraw) (ha : IsDraw a) (hb : IsDraw b) :
    (c.crosswise a b).IsFinite := by
  have hroom := f.room
  obtain ⟨-, hd, hbase⟩ := within_drawn h
  have hside := Vec3.within_perpendicular hd (by omega) (by omega)
  have hreach : ∀ {x : Binary f}, IsDraw x →
      (c.direction.perpendicular * (Scalar.four * x : Binary f)).All
        (Within (f.directionExponent + f.rootExponent + 3)) := fun hx =>
    (Vec3.within_mul hside (within_four.mul hx.within (by omega)) (by omega)).within_mono (by omega)
  have hbase := hbase.within_mono
    (by omega : f.directionExponent + 3 ≤ f.directionExponent + f.rootExponent + 3)
  exact isFinite_trial h (Vec3.within_add hbase (hreach ha) (by omega))
    (Vec3.within_sub hbase (hreach hb) (by omega)) (by omega) (by omega)

theorem isFinite_outward (h : c.IsDrawn IsDraw) (ha : IsDraw a) : (c.outward a).IsFinite := by
  have hroom := f.room
  obtain ⟨-, hd, hbase⟩ := within_drawn h
  have hreach := Vec3.within_mul hd (within_two.mul ha.within (by omega)) (by omega)
  exact isFinite_trial h (hbase.within_mono (Nat.le_succ _))
    (Vec3.within_add hbase (hreach.within_mono (by omega)) (by omega)) (by omega) (by omega)

end SphereLine

theorem BoxLine.isFinite_trial {c : BoxLine (Binary f)} (h : c.IsDrawn) : c.trial.IsFinite := by
  have hroom := f.room
  have hcenter : ∀ {lower upper center base : Binary f}, DrawnAxis lower upper center base →
      Within 0 center := by
    intro lower upper center base h
    obtain ⟨h0, h1⟩ := h.center_bounds
    exact ⟨h.isNumber, by rwa [abs_of_nonneg h0, pow_zero]⟩
  have hleast : c.box.least.All (Within 0) :=
    ⟨h.x.isDraw_lower.within, h.y.isDraw_lower.within, h.z.isDraw_lower.within⟩
  have hgreatest : c.box.greatest.All (Within 0) :=
    ⟨h.x.isDraw_upper.within, h.y.isDraw_upper.within, h.z.isDraw_upper.within⟩
  have hbase : c.base.All (Within 0) :=
    ⟨h.x.isDraw_base.within, h.y.isDraw_base.within, h.z.isDraw_base.within⟩
  have hdirection : c.direction.All (Within 1) :=
    Vec3.within_sub hbase ⟨hcenter h.x, hcenter h.y, hcenter h.z⟩ (by omega)
  have hbox : c.box.All (Within 2) :=
    ⟨hleast.within_mono (by omega), hgreatest.within_mono (by omega)⟩
  exact Trial.isFinite_of_within (k := 2) (by omega)
    ⟨hbox, hbase.within_mono (by omega),
      Vec3.within_add (hbase.within_mono (by omega)) hdirection (by omega)⟩
    ⟨hbox, hbase.within_mono (by omega), hdirection.within_mono (by omega)⟩

/-- Every trial that a suite draws from words is finite. -/
theorem Suite.trial_isFinite {G : Type} [WordSource G] {I : G → Prop}
    (hI : ∀ g, I g → I (WordSource.next g).2) (suite : Suite) (tries : Nat) :
    (suite.trial tries : Draw G (Binary f) (Trial (Binary f))).Ensures I Trial.IsFinite
      (fun _ => True) := by
  have hdraw := yields_isDraw (f := f) hI
  have hradius : ∀ x : Binary f, IsDraw x → 0 ≤ Scalar.two * x := fun _ h => h.two_mul_nonneg
  cases suite with
  | triangleLine =>
    exact .bind (TriangleLine.draw_ensures hdraw) fun _ hc => .pure (TriangleLine.isFinite_trial hc)
  | sphereBroadside =>
    refine (SphereLine.broadside_ensures hdraw hradius).mono ?_ fun _ _ => trivial
    rintro t ⟨c, a, b, hc, ha, hb, rfl⟩
    exact SphereLine.isFinite_crosswise hc ha hb
  | sphereEndpoint =>
    refine (SphereLine.endpoint_ensures hdraw hradius).mono ?_ fun _ _ => trivial
    rintro t ⟨c, a, hc, ha, rfl⟩
    exact SphereLine.isFinite_outward hc ha
  | boxLine =>
    exact .bind (BoxLine.draw_ensures hdraw) fun _ hc => .pure (BoxLine.isFinite_trial hc)

end HitTest
