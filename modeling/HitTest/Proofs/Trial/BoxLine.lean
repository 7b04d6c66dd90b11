import HitTest.Proofs.Query.Slab
import HitTest.Proofs.Random.UnitDraw
import HitTest.Proofs.Trial.Run

/-!
# The trials of boxes are exact (`aabb::random_trials`)

On every axis the rounded midpoint of two drawn scalars is between them, the rounded way from there
to a third one does not point back, and neither does the same way after it was added to the third
scalar and taken off again. So both lines of a trial start beyond a face and lead away from it, or
start inside, and the queries answer what is expected of them in spite of rounding.
-/

namespace HitTest

open Binary hiding min max

variable {f : Format}

/-! ## One axis -/

namespace Binary

variable {lower upper center base d : Binary f}

/-- A rounded direction that leads from one coordinate away from another, and not far. -/
structure LeadsAway (center base d : Binary f) : Prop where
  isFinite : d.IsFinite
  abs_le : |d.value| ≤ 2
  nonneg : center.value ≤ base.value → 0 ≤ d.value
  nonpos : base.value ≤ center.value → d.value ≤ 0

/-- Two faces, what is taken for the middle, and a coordinate of the point where lines start. -/
structure DrawnAxis (lower upper center base : Binary f) : Prop where
  isDraw_lower : IsDraw lower
  isDraw_upper : IsDraw upper
  isDraw_base : IsDraw base
  isNumber : center.isNumber = true
  lower_le : lower.value ≤ center.value
  le_upper : center.value ≤ upper.value

theorem IsDraw.sub_isFinite {x y : Binary f} (hx : IsDraw x) (hy : IsDraw y) :
    (x - y).IsFinite := by
  refine (rounds_sub hx.isFinite hy.isFinite).isFinite_of_abs_le_natCast (n := 1) (by decide) ?_
  rw [Nat.cast_one, abs_le]
  constructor <;> linarith [hx.nonneg, hx.le_one, hy.nonneg, hy.le_one]

namespace DrawnAxis

/-- The middle of two draws is between them. -/
theorem of_isDraw {p q base : Binary f} (hp : IsDraw p) (hq : IsDraw q) (hb : IsDraw base) :
    DrawnAxis (Min.min p q) (Max.max p q)
      ((Min.min p q + Max.max p q) * (Scalar.half : Binary f)) base := by
  have hle : (Min.min p q).value ≤ (Max.max p q).value := by
    rw [value_min hp.isNumber hq.isNumber, value_max hp.isNumber hq.isNumber]
    exact min_le_max
  have hm := hp.min hq
  have hM := hp.max hq
  obtain ⟨h1, h2, h3⟩ := half_add_spec hm.isNumber hM.isNumber
    (by rw [abs_of_nonneg hm.nonneg]; exact hm.le_one)
    (by rw [abs_of_nonneg hM.nonneg]; exact hM.le_one) hle
  exact ⟨hm, hM, hb, h1, h2, h3⟩

variable (h : DrawnAxis lower upper center base)

include h

theorem center_bounds : 0 ≤ center.value ∧ center.value ≤ 1 :=
  ⟨h.isDraw_lower.nonneg.trans h.lower_le, h.le_upper.trans h.isDraw_upper.le_one⟩

/-- The direction of the ray. -/
theorem rounds_direction : Rounds (base.value - center.value) (base - center) := by
  obtain ⟨h0, h1⟩ := h.center_bounds
  exact rounds_sub h.isDraw_base.isFinite
    (isFinite_of_abs_le_four h.isNumber (by rw [abs_of_nonneg h0]; linarith))

theorem abs_direction_le : |(base - center).value| ≤ 1 := by
  obtain ⟨h0, h1⟩ := h.center_bounds
  have hexact : |base.value - center.value| ≤ (1 : Nat) := by
    rw [Nat.cast_one, abs_le]
    constructor <;> linarith [h.isDraw_base.nonneg, h.isDraw_base.le_one]
  simpa using h.rounds_direction.abs_value_le (by decide) hexact

/-- The ray leads away from the center. -/
theorem leadsAway_ray : LeadsAway center base (base - center) where
  isFinite := isFinite_of_abs_le_four h.rounds_direction.isNumber
    (by linarith [h.abs_direction_le])
  abs_le := by linarith [h.abs_direction_le]
  nonneg hle := h.rounds_direction.value_nonneg (by linarith)
  nonpos hle := h.rounds_direction.value_nonpos (by linarith)

/-- So does the segment, whose direction is rounded twice more. -/
theorem leadsAway_segment : LeadsAway center base (base + (base - center) - base) := by
  have hd := h.leadsAway_ray
  obtain ⟨hd1, hd2⟩ := abs_le.1 h.abs_direction_le
  have hb := h.isDraw_base.isFinite
  have h0 := h.isDraw_base.nonneg
  have h1 := h.isDraw_base.le_one
  have ht := rounds_add hb hd.isFinite
  generalize base - center = e at *
  have ht2 : |(base + e).value| ≤ (2 : Nat) := by
    refine ht.abs_value_le (by decide) ?_
    rw [Nat.cast_ofNat, abs_le]
    constructor <;> linarith
  have htf : (base + e).IsFinite := isFinite_of_abs_le_four ht.isNumber (ht2.trans (by norm_num))
  have hr := rounds_sub htf hb
  -- the end is on the side of the start that the direction points to
  have hup : 0 ≤ e.value → base.value ≤ (base + e).value := by
    intro he
    exact ht.le_value hb.1 (by linarith)
  have hdown : e.value ≤ 0 → (base + e).value ≤ base.value := by
    intro he
    exact ht.value_le hb.1 (by linarith)
  have hexact : |(base + e).value - base.value| ≤ (2 : Nat) := by
    rw [Nat.cast_ofNat, abs_le] at ht2 ⊢
    rcases le_total 0 e.value with he | he
    · constructor <;> linarith [hup he]
    · have hlow := ht.le_value (y := -1) isFinite_one.neg.1 (by rw [value_neg, value_one]; linarith)
      rw [value_neg, value_one] at hlow
      constructor <;> linarith [hdown he]
  refine ⟨hr.isFinite_of_abs_le_natCast (by decide) hexact, ?_, ?_, ?_⟩
  · simpa using hr.abs_value_le (by decide) hexact
  · intro hle
    exact hr.value_nonneg (by linarith [hup (hd.nonneg hle)])
  · intro hle
    exact hr.value_nonpos (by linarith [hdown (hd.nonpos hle)])

/-- A line that starts beyond a face is never between the faces. -/
theorem clip_eq_none (hd : LeadsAway center base d) (hout : ¬ (lower ≤ base ∧ base ≤ upper))
    {r : Span (Binary f)} (hr : 0 ≤ r.near) : r.clip base d lower upper = none := by
  obtain ⟨hl, hu, hb, -, hle, hge⟩ := h
  rw [le_iff_value hl.isNumber hb.isNumber, le_iff_value hb.isNumber hu.isNumber, not_and_or,
    not_le, not_le] at hout
  have hleaves : Leaves base d lower upper := by
    rcases hout with hlt | hlt
    · exact .below (hb.gap hl hlt) (hd.nonpos (hlt.le.trans hle))
    · exact .above (hu.gap hb hlt) (hd.nonneg (hge.trans hlt.le))
  exact Span.clip_of_leaves hr hleaves (hle.trans hge) hb.isFinite hd.isFinite hl.isFinite
    hu.isFinite (hl.sub_isFinite hb) (hu.sub_isFinite hb) hd.abs_le

end DrawnAxis

end Binary

/-! ## Three axes -/

/-- No parameter is left of a line if some axis leaves nothing of any range. -/
theorem Box.clip_eq_none {S : Type} [Scalar S] (P : Span S → Prop) (b : Box S) (l : Line S)
    (h0 : P ⟨0, l.maxParam⟩)
    (hclip : ∀ {r r' : Span S} {o d lower upper : S}, P r → r.clip o d lower upper = some r' → P r')
    (h : (∀ r, P r → r.clip l.origin.x l.direction.x b.least.x b.greatest.x = none) ∨
      (∀ r, P r → r.clip l.origin.y l.direction.y b.least.y b.greatest.y = none) ∨
      (∀ r, P r → r.clip l.origin.z l.direction.z b.least.z b.greatest.z = none)) :
    b.clip l = none := by
  cases hl : b.clip l with
  | none => rfl
  | some r =>
    obtain ⟨r1, r2, e1, e2, e3⟩ := clip_eq_some_iff.1 hl
    have h1 := hclip h0 e1
    have h2 := hclip h1 e2
    rcases h with h | h | h
    · rw [h _ h0] at e1
      cases e1
    · rw [h _ h1] at e2
      cases e2
    · rw [h _ h2] at e3
      cases e3

namespace BoxLine

/-- Every axis of a drawn box and a drawn base point. -/
structure IsDrawn (c : BoxLine (Binary f)) : Prop where
  x : DrawnAxis c.box.least.x c.box.greatest.x c.center.x c.base.x
  y : DrawnAxis c.box.least.y c.box.greatest.y c.center.y c.base.y
  z : DrawnAxis c.box.least.z c.box.greatest.z c.center.z c.base.z

variable {c : BoxLine (Binary f)}

/-- The query agrees with the expected answer for every line that leads away from the center. -/
theorem meetsLine_eq_contains (h : c.IsDrawn) {l : Line (Binary f)} (ho : l.origin = c.base)
    (hmax : 0 ≤ l.maxParam) (hx : LeadsAway c.center.x c.base.x l.direction.x)
    (hy : LeadsAway c.center.y c.base.y l.direction.y)
    (hz : LeadsAway c.center.z c.base.z l.direction.z) :
    c.box.meetsLine l = c.box.contains c.base := by
  have hnum : c.box.IsNumeric :=
    ⟨⟨h.x.isDraw_lower.isNumber, h.y.isDraw_lower.isNumber, h.z.isDraw_lower.isNumber⟩,
      h.x.isDraw_upper.isNumber, h.y.isDraw_upper.isNumber, h.z.isDraw_upper.isNumber⟩
  have hbase : c.base.All IsDraw := ⟨h.x.isDraw_base, h.y.isDraw_base, h.z.isDraw_base⟩
  cases hin : c.box.contains c.base with
  | true =>
    rw [← ho] at hbase hin
    exact Box.meetsLine_of_contains hnum (hbase.mono fun _ h => h.isFinite) hmax hin
  | false =>
    rw [← Bool.not_eq_true, Box.contains_iff hnum (hbase.mono fun _ h => h.isNumber)] at hin
    have hclip : c.box.clip l = none := by
      refine Box.clip_eq_none (fun r => 0 ≤ r.near) _ _ (nonneg_iff.2 ⟨rfl, by simp⟩)
        Span.near_nonneg_of_clip ?_
      rw [ho]
      rcases not_and_or.1 hin with hin | hin
      · exact .inl fun r => h.x.clip_eq_none hx hin
      · rcases not_and_or.1 hin with hin | hin
        · exact .inr (.inl fun r => h.y.clip_eq_none hy hin)
        · exact .inr (.inr fun r => h.z.clip_eq_none hz hin)
    simp [Box.meetsLine, hclip]

/-- Nothing is wrong in a trial of a drawn box. -/
theorem trial_isSilent (h : c.IsDrawn) : c.trial.IsSilent := by
  have hsegment : c.box.meetsLine (Probe.segment ⟨c.base, c.base + c.direction⟩).line =
      c.box.contains c.base := meetsLine_eq_contains h rfl (Segment.zero_le_maxParam _)
    h.x.leadsAway_segment h.y.leadsAway_segment h.z.leadsAway_segment
  have hray : c.box.meetsLine (Probe.ray ⟨c.base, c.direction⟩).line =
      c.box.contains c.base := meetsLine_eq_contains h rfl (Ray.zero_le_maxParam _)
    h.x.leadsAway_ray h.y.leadsAway_ray h.z.leadsAway_ray
  have agree : ∀ b : Bool, Mismatch.ofAnswer b b = none := by decide
  refine ⟨⟨rfl, ?_⟩, rfl, ?_⟩
  · simp only [trial, Comparison.ofBox, hsegment, agree]
  · simp only [trial, Comparison.ofBox, hray, agree]

/-! ## Drawing -/

/-- The box of two points has their lesser and greater coordinates as corners. -/
theorem expandBy_expandBy {p q : Vec3 (Binary f)} (hp : p.All IsFinite) :
    (Box.empty.expandBy p).expandBy q = ⟨p.zipWith min q, p.zipWith max q⟩ := by
  obtain ⟨hx, hy, hz⟩ := hp
  simp only [Box.expandBy, Box.empty, Vec3.zipWith, Vec3.uniform, Scalar.infinity, min_infinity,
    max_neg_infinity, hx, hy, hz]

/-- The box of two drawn points has a center. -/
theorem exists_center {p q : Vec3 (Binary f)} (hp : p.All IsDraw) (hq : q.All IsDraw) :
    ∃ center, ((Box.empty.expandBy p).expandBy q).center? = some center ∧
      ∀ base, base.All IsDraw → IsDrawn ⟨(Box.empty.expandBy p).expandBy q, center, base⟩ := by
  let box : Box (Binary f) := ⟨p.zipWith min q, p.zipWith max q⟩
  let center := (box.least + box.greatest) * (Scalar.half : Binary f)
  have h : ∀ base, base.All IsDraw → IsDrawn ⟨box, center, base⟩ := fun _ hb =>
    ⟨.of_isDraw hp.1 hq.1 hb.1, .of_isDraw hp.2.1 hq.2.1 hb.2.1, .of_isDraw hp.2.2 hq.2.2 hb.2.2⟩
  have hbox : (Box.empty.expandBy p).expandBy q = box :=
    expandBy_expandBy (hp.mono fun _ h => h.isFinite)
  refine ⟨center, ?_, by rwa [hbox]⟩
  have ordered : ∀ {lower upper center base : Binary f}, DrawnAxis lower upper center base →
      decide (upper < lower) = false := by
    intro lower upper center base h
    rw [decide_eq_false_iff_not, not_lt_iff_value h.isDraw_upper.isNumber h.isDraw_lower.isNumber]
    exact h.lower_le.trans h.le_upper
  rw [hbox]
  refine if_neg ?_
  rw [Box.isEmpty, ordered (h p hp).x, ordered (h p hp).y, ordered (h p hp).z]
  decide

/-- A box and a base point are drawn from any source. -/
theorem draw_ensures {G : Type} [ScalarSource G (Binary f)] {I : G → Prop}
    {E : Fault (Binary f) → Prop} (hI : Draw.Yields I (IsDraw : Binary f → Prop)) :
    (draw : Draw G (Binary f) (BoxLine (Binary f))).Ensures I IsDrawn E := by
  refine .bind (Draw.vector_ensures hI) fun p hp => .bind (Draw.vector_ensures hI) fun q hq => ?_
  obtain ⟨center, hcenter, h⟩ := exists_center hp hq
  simp only [hcenter]
  exact .bind (Draw.vector_ensures hI) fun base hb => .pure (h base hb)

end BoxLine

namespace Suite

/-- Every trial of boxes is drawn, and nothing is wrong in it. -/
theorem boxLine_trial_ensures {G : Type} [ScalarSource G (Binary f)] {I : G → Prop}
    {E : Fault (Binary f) → Prop} (hI : Draw.Yields I (IsDraw : Binary f → Prop)) (tries : Nat) :
    (boxLine.trial tries : Draw G (Binary f) (Trial (Binary f))).Ensures I Trial.IsSilent E :=
  .bind (BoxLine.draw_ensures hI) fun _ hc => .pure (BoxLine.trial_isSilent hc)

/-- So it is from any source of words. -/
theorem boxLine_trial_run {G : Type} [WordSource G] (tries : Nat) (g : G) :
    ∃ (t : Trial (Binary f)) (g' : G),
      (boxLine.trial tries : Draw G (Binary f) (Trial (Binary f))).run g = .ok (t, g') ∧
        t.IsSilent := by
  have hI := yields_isDraw (f := f) (I := fun _ : G => True) fun _ _ => trivial
  rcases boxLine_trial_ensures (E := fun _ => False) hI tries g trivial with
    ⟨t, g', ht, -, hsilent⟩ | ⟨_, _, hnever⟩
  · exact ⟨t, g', ht, hsilent⟩
  · exact hnever.elim

end Suite

end HitTest
