import HitTest.Proofs.Binary.FixedPoint
import HitTest.Proofs.Query.Scaling
import HitTest.Proofs.Shape.Scalars

/-!
# Directions of any length, for coordinates of moderate size

Whether a query is in range can be read off the coordinates that it is asked with. If all of them
are whole multiples of one power of two and not above another one, then so is everything that is
computed without a division, with exponents that are the sums of theirs: the determinant of a
triangle is of the third degree in them, the discriminant of a sphere of the fourth. The quotients
are between the extremes. So it is enough that the two powers are no more than a quarter of the
exponents of the format apart, less some room for the direction to be scaled and for sums to grow.
-/

namespace HitTest

open Binary hiding min max

variable {f : Format} {lo lo' hi hi' e k : ℤ}

/-! ## Vectors -/

namespace Vec3

variable {a b : Vec3 (Binary f)}

theorem fixed_sub (ha : a.All (Fixed lo hi)) (hb : b.All (Fixed lo hi)) (hf : f.Spans lo (hi + 1)) :
    (a - b).All (Fixed lo (hi + 1)) :=
  ⟨ha.1.sub hb.1 hf, ha.2.1.sub hb.2.1 hf, ha.2.2.sub hb.2.2 hf⟩

theorem fixed_dot (ha : a.All (Fixed lo hi)) (hb : b.All (Fixed lo' hi'))
    (hf : f.Spans (lo + lo') (hi + hi')) (htop : hi + hi' + 2 < f.exponentBound) :
    a.DotFits b ∧ Fixed (lo + lo') (hi + hi' + 2) (a.dot b) := by
  obtain ⟨hax, hay, haz⟩ := ha
  obtain ⟨hbx, hby, hbz⟩ := hb
  have hle := hf.le
  have hxy := (hax.mul hbx hf).add (hay.mul hby hf) ⟨hf.above, by omega, by omega⟩
  have hxyz := hxy.add ((haz.mul hbz hf).mono le_rfl (by omega)) ⟨hf.above, by omega, by omega⟩
  exact ⟨⟨hax.mulFits hbx hf, hay.mulFits hby hf, haz.mulFits hbz hf, hxy.addFits, hxyz.addFits⟩,
    hxyz.mono le_rfl (by omega)⟩

theorem fixed_cross (ha : a.All (Fixed lo hi)) (hb : b.All (Fixed lo' hi'))
    (hf : f.Spans (lo + lo') (hi + hi')) (htop : hi + hi' + 1 < f.exponentBound) :
    a.CrossFits b ∧ (a.cross b).All (Fixed (lo + lo') (hi + hi' + 1)) := by
  have hle := hf.le
  have hspans : f.Spans (lo + lo') (hi + hi' + 1) := ⟨hf.above, by omega, htop⟩
  -- one component, from two components of either vector
  have hpair : ∀ {p q s t : Binary f}, Fixed lo hi p → Fixed lo' hi' q → Fixed lo hi s →
      Fixed lo' hi' t →
      MulSubFits p q s t ∧ Fixed (lo + lo') (hi + hi' + 1) (p * q - s * t) := by
    intro p q s t hp hq hs ht
    have hsub := (hp.mul hq hf).sub (hs.mul ht hf) hspans
    exact ⟨⟨hp.mulFits hq hf, hs.mulFits ht hf, hsub.addFits⟩, hsub⟩
  obtain ⟨hax, hay, haz⟩ := ha
  obtain ⟨hbx, hby, hbz⟩ := hb
  obtain ⟨hfx, hx⟩ := hpair hay hbz haz hby
  obtain ⟨hfy, hy⟩ := hpair haz hbx hax hbz
  obtain ⟨hfz, hz⟩ := hpair hax hby hay hbx
  exact ⟨⟨hfx, hfy, hfz⟩, hx, hy, hz⟩

end Vec3

/-! ## Shapes and rays -/

/-- Room in a format for what is computed from coordinates between two exponents and a direction
between exponents that are moved by `e`. The longest products have four factors. -/
structure Format.HasRoom (f : Format) (lo hi e : ℤ) : Prop where
  lo_nonpos : lo ≤ 0
  hi_nonneg : 0 ≤ hi
  room : 4 * (hi - lo) + 2 * |e| + 10 < f.exponentBound

/-- The room without a magnitude, in the form in which it is used. -/
theorem Format.HasRoom.bounds (h : f.HasRoom lo hi e) : lo ≤ 0 ∧ 0 ≤ hi ∧
    4 * (hi - lo) + 2 * e + 10 < f.exponentBound ∧
      4 * (hi - lo) - 2 * e + 10 < f.exponentBound := by
  obtain ⟨hlo, hhi, hroom⟩ := h
  have hup := le_abs_self e
  have hdown := neg_abs_le e
  omega

/-- A direction that is not moved needs less room. -/
theorem Format.HasRoom.still (h : f.HasRoom lo hi e) : f.HasRoom lo hi 0 := by
  obtain ⟨hlo, hhi, hroom⟩ := h
  have habs := abs_nonneg e
  exact ⟨hlo, hhi, by rw [abs_zero]; omega⟩

theorem Format.fractionBits_le (f : Format) : 4 * (f.fractionBits + 9) ≤ f.exponentBound := by
  cases f <;> decide

variable {r : Ray (Binary f)}

namespace Plane

variable {pl : Plane (Binary f)}

theorem resolves_of_fixed (hroom : f.HasRoom lo hi e) (hpl : pl.All (Fixed lo hi))
    (ho : r.origin.All (Fixed lo hi)) (hd : r.direction.All (Fixed (lo + e) (hi + e))) :
    pl.Resolves r := by
  obtain ⟨hn, hoffset⟩ := hpl
  obtain ⟨hlo, hhi, hup, hdown⟩ := hroom.bounds
  obtain ⟨hfits, hslope⟩ := Vec3.fixed_dot hn hd ⟨by omega, by omega, by omega⟩ (by omega)
  have hheight := (Vec3.fixed_dot hn ho ⟨by omega, by omega, by omega⟩ (by omega)).2
  have hdist := hheight.add (hoffset.mono (by omega) (by omega)) ⟨by omega, by omega, by omega⟩
  exact {
    slope := hfits
    clear := hslope.isClear (by omega)
    param := fun hmoves => hdist.neg.divFits hslope
      (Binary.Scaled.value_ne_zero hmoves hslope.isFinite) ⟨by omega, by omega, by omega⟩ }

end Plane

namespace Triangle

variable {t : Triangle (Binary f)}

theorem resolves_of_fixed (hroom : f.HasRoom lo hi e) (ht : t.All (Fixed lo hi))
    (ho : r.origin.All (Fixed lo hi)) (hd : r.direction.All (Fixed (lo + e) (hi + e))) :
    t.Resolves r := by
  obtain ⟨h0, h1, h2⟩ := ht
  obtain ⟨hlo, hhi, hup, hdown⟩ := hroom.bounds
  have hdigits := f.fractionBits_le
  have hspan : f.Spans lo (hi + 1) := ⟨by omega, by omega, by omega⟩
  have hedge0 : t.edge0.All (Fixed lo (hi + 1)) := Vec3.fixed_sub h1 h0 hspan
  have hedge1 : t.edge1.All (Fixed lo (hi + 1)) := Vec3.fixed_sub h2 h0 hspan
  have hoffset := Vec3.fixed_sub ho h0 hspan
  obtain ⟨hcross, hnormal⟩ := Vec3.fixed_cross hd hedge1 ⟨by omega, by omega, by omega⟩ (by omega)
  obtain ⟨hdot, hdet⟩ := Vec3.fixed_dot hedge0 hnormal ⟨by omega, by omega, by omega⟩ (by omega)
  have hside := (Vec3.fixed_cross hoffset hedge0 ⟨by omega, by omega, by omega⟩ (by omega)).2
  obtain ⟨hdot0, hshare0⟩ :=
    Vec3.fixed_dot hoffset hnormal ⟨by omega, by omega, by omega⟩ (by omega)
  obtain ⟨hdot1, hshare1⟩ := Vec3.fixed_dot hd hside ⟨by omega, by omega, by omega⟩ (by omega)
  have hparam := (Vec3.fixed_dot hedge1 hside ⟨by omega, by omega, by omega⟩ (by omega)).2
  -- what the reciprocal is multiplied with is of the same degree as the determinant, except for the
  -- direction in the parameter
  have hne : ¬ (t.determinant r.direction).abs ≤ minPositive →
      (t.determinant r.direction).value ≠ 0 := fun h => Binary.Scaled.value_ne_zero h hdet.isFinite
  have hinverse := fun h => Fixed.one.div hdet (hne h) ⟨by omega, by omega, by omega⟩
  exact {
    cross := hcross
    determinant := hdot
    clear := hdet.isClear (by omega)
    inverse := fun h => Fixed.one.divFits hdet (hne h) ⟨by omega, by omega, by omega⟩
    share0 := fun h => ⟨hdot0, (hinverse h).mulFits hshare0 ⟨by omega, by omega, by omega⟩⟩
    share1 := fun h _ => ⟨hdot1, (hinverse h).mulFits hshare1 ⟨by omega, by omega, by omega⟩⟩
    param := fun h => (hinverse h.moves).mulFits hparam ⟨by omega, by omega, by omega⟩ }

end Triangle

namespace Sphere

variable {s : Sphere (Binary f)} {a b c : Binary f}

/-- The discriminant is of the fourth degree in the coordinates, and the root of the second. -/
theorem rootsFit_of_fixed (hroom : f.HasRoom lo hi e)
    (ha : Fixed (2 * (lo + e)) (2 * (hi + e) + 2) a) (hb : Fixed (2 * lo + e) (2 * hi + e + 3) b)
    (hc : Fixed (2 * lo) (2 * hi + 5) c) : RootsFit a b c := by
  obtain ⟨hlo, hhi, hup, hdown⟩ := hroom.bounds
  have hdigits := f.fractionBits_le
  have hsq : f.Spans (2 * lo + e + (2 * lo + e)) (2 * hi + e + 3 + (2 * hi + e + 3)) :=
    ⟨by omega, by omega, by omega⟩
  have hprod : f.Spans (2 * (lo + e) + 2 * lo) (2 * (hi + e) + 2 + (2 * hi + 5)) :=
    ⟨by omega, by omega, by omega⟩
  -- the exponents of the discriminant are even, so that they can be halved for its root
  have hdisc : Fixed (2 * lo + e + (2 * lo + e)) (4 * hi + 2 * e + 7 + 1) (b * b - a * c) :=
    ((hb.mul hb hsq).mono le_rfl (by omega)).sub ((ha.mul hc hprod).mono (by omega) (by omega))
      ⟨by omega, by omega, by omega⟩
  have hroot : ¬ b * b - a * c < 0 →
      Fixed (2 * lo + e - f.fractionBits - 1) (2 * hi + e + 4) (b * b - a * c).sqrt := fun hreal =>
    (hdisc.mono le_rfl (by omega)).sqrt ((Binary.not_lt hdisc.isFinite.1 rfl).1 hreal)
      ⟨by omega, by omega, by omega⟩
  have hb' : Fixed (2 * lo + e - f.fractionBits - 1) (2 * hi + e + 4) (-b) :=
    hb.neg.mono (by omega) (by omega)
  have hne : ¬ a ≤ 0 → a.value ≠ 0 := fun hmoves h0 =>
    hmoves (nonpos_iff.2 ⟨ha.isFinite.1, h0.le⟩)
  have hspan : f.Spans (2 * lo + e - f.fractionBits - 1) (2 * hi + e + 4 + 1) :=
    ⟨by omega, by omega, by omega⟩
  have hquot : f.Spans (2 * lo + e - f.fractionBits - 1 - (2 * (hi + e) + 2))
      (2 * hi + e + 4 + 1 - 2 * (lo + e)) := ⟨by omega, by omega, by omega⟩
  refine ⟨fun _ => ⟨hb.mulFits hb hsq, ha.mulFits hc hprod, hdisc.addFits⟩, fun hmoves hreal => ?_,
    fun hmoves hreal => ?_⟩
  · have hnear := hb'.sub (hroot hreal) hspan
    exact ⟨hnear.addFits, hnear.divFits ha (hne hmoves) hquot⟩
  · have hfar := hb'.add (hroot hreal) hspan
    exact ⟨hfar.addFits, hfar.divFits ha (hne hmoves) hquot⟩

theorem resolves_of_fixed (hroom : f.HasRoom lo hi e) (hs : s.All (Fixed lo hi))
    (ho : r.origin.All (Fixed lo hi)) (hd : r.direction.All (Fixed (lo + e) (hi + e))) :
    s.Resolves r := by
  obtain ⟨hcenter, hradius⟩ := hs
  obtain ⟨hlo, hhi, hup, hdown⟩ := hroom.bounds
  have hoffset := Vec3.fixed_sub ho hcenter ⟨by omega, by omega, by omega⟩
  have hdist := (Vec3.fixed_dot hoffset hoffset ⟨by omega, by omega, by omega⟩ (by omega)).2
  have hradiusSq := hradius.mul hradius ⟨by omega, by omega, by omega⟩
  have hpower := hdist.sub (hradiusSq.mono le_rfl (by omega)) ⟨by omega, by omega, by omega⟩
  obtain ⟨hfits, hlength⟩ := Vec3.fixed_dot hd hd ⟨by omega, by omega, by omega⟩ (by omega)
  obtain ⟨hfits', hslope⟩ := Vec3.fixed_dot hd hoffset ⟨by omega, by omega, by omega⟩ (by omega)
  exact {
    lengthSq := fun _ => hfits
    slope := fun _ => hfits'
    roots := fun _ => rootsFit_of_fixed hroom (hlength.mono (by omega) (by omega))
      (hslope.mono (by omega) (by omega)) (hpower.mono (by omega) (by omega)) }

end Sphere

namespace Box

variable {b : Box (Binary f)}

theorem resolves_of_fixed (hroom : f.HasRoom lo hi e) (hb : b.All (Fixed lo hi))
    (ho : r.origin.All (Fixed lo hi)) (hd : r.direction.All (Fixed (lo + e) (hi + e))) :
    b.Resolves r := by
  obtain ⟨hlo, hhi, hup, hdown⟩ := hroom.bounds
  have hdigits := f.fractionBits_le
  intro _ i
  have hoi := Vec3.all_iff_coord.1 ho i
  have hdi := Vec3.all_iff_coord.1 hd i
  have hne : ¬ (r.direction.coord i).abs ≤ minPositive → (r.direction.coord i).value ≠ 0 :=
    fun h => Binary.Scaled.value_ne_zero h hdi.isFinite
  -- either face, before it is multiplied by the reciprocal
  have hface : ∀ {u : Binary f}, Fixed lo hi u → ¬ (r.direction.coord i).abs ≤ minPositive →
      MulFits (u - r.origin.coord i) (1 / r.direction.coord i) := fun hu h =>
    (hu.sub hoi ⟨by omega, by omega, by omega⟩).mulFits
      (Fixed.one.div hdi (hne h) ⟨by omega, by omega, by omega⟩) ⟨by omega, by omega, by omega⟩
  exact {
    clear := hdi.isClear (by omega)
    inverse := fun h => Fixed.one.divFits hdi (hne h) ⟨by omega, by omega, by omega⟩
    lower := hface (Vec3.all_iff_coord.1 hb.1 i)
    upper := hface (Vec3.all_iff_coord.1 hb.2 i) }

end Box

namespace Shape

variable {r' : Ray (Binary f)} {x : Shape (Binary f)}

theorem resolves_of_fixed (hroom : f.HasRoom lo hi e) (hx : x.All (Fixed lo hi))
    (ho : r.origin.All (Fixed lo hi)) (hd : r.direction.All (Fixed (lo + e) (hi + e))) :
    x.Resolves r := by
  cases x with
  | triangle t => exact Triangle.resolves_of_fixed hroom hx ho hd
  | plane pl => exact Plane.resolves_of_fixed hroom hx ho hd
  | sphere s => exact Sphere.resolves_of_fixed hroom hx ho hd
  | box b => exact Box.resolves_of_fixed hroom hx ho hd
  | point _ => trivial
  | ray _ => trivial
  | segment _ => trivial

/-- Multiplying the direction of a ray by a power of two does not change whether it meets a shape,
if what is computed for either ray is in range (`intersects` for a `Ray`). It is if all coordinates,
with the direction before it is multiplied, are between two exponents that leave room in the
format. -/
theorem meets?_scaled (x : Shape (Binary f)) (h : r.Scaled k r') :
    (x.Resolves r → x.Resolves r' → x.meets? (.ray r') = x.meets? (.ray r)) ∧
      ∀ lo hi, f.HasRoom lo hi k → x.All (Fixed lo hi) → r.All (Fixed lo hi) →
        x.meets? (.ray r') = x.meets? (.ray r) := by
  refine ⟨meets?_of_resolves h, fun lo hi hroom hx hr => ?_⟩
  obtain ⟨ho, hd⟩ := hr
  have hd' : r'.direction.All (Fixed (lo + k) (hi + k)) :=
    ⟨hd.1.scaled h.direction.x, hd.2.1.scaled h.direction.y, hd.2.2.scaled h.direction.z⟩
  have hd0 : r.direction.All (Fixed (lo + 0) (hi + 0)) := by rwa [add_zero, add_zero]
  exact meets?_of_resolves h (resolves_of_fixed hroom.still hx ho hd0)
    (resolves_of_fixed hroom hx (h.origin ▸ ho) hd')

/-- A box and a sphere that are hit along an axis, with a direction of length one or four. -/
theorem meets?_scaled_axis :
    let b : Shape Binary32 := box ⟨⟨1, 0, 0⟩, ⟨ofNat 2, 1, 1⟩⟩
    let s : Shape Binary32 := sphere ⟨⟨ofNat 3, 0, 0⟩, 1⟩
    let r : Ray Binary32 := ⟨0, ⟨1, 0, 0⟩⟩
    let r' : Ray Binary32 := ⟨0, ⟨ofNat 4, 0, 0⟩⟩
    (b.Resolves r ∧ b.Resolves r' ∧ b.meets? (.ray r') = some true) ∧
      Format.HasRoom .single 0 2 2 ∧ s.All (Fixed 0 2) ∧ r.All (Fixed 0 2) ∧
        s.meets? (.ray r') = some true := by
  intro b s r r'
  have hsmall : ∀ {n : ℕ}, n ≤ 4 → Fixed 0 2 (ofNat n : Binary32) := Fixed.ofNat
  have h0 : Fixed 0 2 (0 : Binary32) := hsmall (n := 0) (by decide)
  have h1 : Fixed 0 2 (1 : Binary32) := hsmall (n := 1) (by decide)
  have h2 : Fixed 0 2 (ofNat 2 : Binary32) := hsmall (by decide)
  have h3 : Fixed 0 2 (ofNat 3 : Binary32) := hsmall (by decide)
  have hr : r.All (Fixed 0 2) := ⟨⟨h0, h0, h0⟩, h1, h0, h0⟩
  have hb : b.All (Fixed 0 2) := ⟨⟨h1, h0, h0⟩, h2, h1, h1⟩
  have hs : s.All (Fixed 0 2) := ⟨⟨h3, h0, h0⟩, h1⟩
  have hscaled : r.Scaled 2 r' := by
    refine ⟨rfl, .finite h1.isFinite (isFinite_ofNat (by decide)) ?_, .zero, .zero⟩
    rw [value_ofNat (by decide), value_one]
    norm_num
  have hroom : Format.HasRoom .single 0 2 2 := ⟨by decide, by decide, by decide⟩
  have hres : b.Resolves r := resolves_of_fixed hroom.still hb hr.1 hr.2
  have hres' : b.Resolves r' :=
    resolves_of_fixed hroom hb hr.1
      ⟨hr.2.1.scaled hscaled.direction.x, hr.2.2.1.scaled .zero, hr.2.2.2.scaled .zero⟩
  have hmeets : b.meets? (.ray r) = some true ∧ s.meets? (.ray r) = some true := by
    decide +kernel
  exact ⟨⟨hres, hres', ((meets?_scaled b hscaled).1 hres hres').trans hmeets.1⟩, hroom, hs, hr,
    ((meets?_scaled s hscaled).2 0 2 hroom hs hr).trans hmeets.2⟩

/-- One of two rays with the same points meets a shape. -/
def TellsApart (x : Shape (Binary f)) (k : ℤ) (r r' : Ray (Binary f)) : Prop :=
  r.Scaled k r' ∧ x.meets? (.ray r') ≠ x.meets? (.ray r)

/-- A direction as short as the threshold of the tests for parallel lines hits nothing, and a slope
that overflows has a plane hit that is behind the origin. -/
theorem not_meets?_scaled :
    (∀ x ∈ [box ⟨⟨1, 0, 0⟩, ⟨ofNat 2, 1, 1⟩⟩, sphere ⟨⟨ofNat 3, 0, 0⟩, 1⟩, plane ⟨⟨1, 0, 0⟩, -1⟩,
        triangle ⟨⟨1, 0, 0⟩, ⟨1, 1, 0⟩, ⟨1, 0, 1⟩⟩],
      x.TellsApart (-126) (⟨0, ⟨1, 0, 0⟩⟩ : Ray Binary32) ⟨0, ⟨minPositive, 0, 0⟩⟩) ∧
    (plane ⟨⟨ofNat (2 ^ 100), 0, 0⟩, ofNat (2 ^ 100)⟩).TellsApart 100
      (⟨0, ⟨1, 0, 0⟩⟩ : Ray Binary32) ⟨0, ⟨ofNat (2 ^ 100), 0, 0⟩⟩ := by
  have hshort : Ray.Scaled (-126) (⟨0, ⟨1, 0, 0⟩⟩ : Ray Binary32) ⟨0, ⟨minPositive, 0, 0⟩⟩ := by
    refine ⟨rfl, .finite isFinite_one (by decide) ?_, .zero, .zero⟩
    rw [value_minPositive, value_one, mul_one]
    rfl
  have hlong : Ray.Scaled 100 (⟨0, ⟨1, 0, 0⟩⟩ : Ray Binary32) ⟨0, ⟨ofNat (2 ^ 100), 0, 0⟩⟩ := by
    refine ⟨rfl, .finite isFinite_one (by decide +kernel) ?_, .zero, .zero⟩
    rw [value_ofNat_two_pow (by decide), value_one, mul_one]
    norm_cast
  refine ⟨fun x hx => ⟨hshort, ?_⟩, hlong, by decide +kernel⟩
  revert x
  decide +kernel

end Shape

end HitTest
