import HitTest.Proofs.Decimal.Layout
import HitTest.Proofs.Run.Log
import HitTest.Proofs.Shape.Scalars

/-!
# Configurations that are told in full

The text of a vector or shape says itself where it ends, as long as the text of a scalar has no
comma, bracket, space or line break. If no two scalars share a text, then no two configurations do,
and the message of a mismatch tells which trial it was, what was wrong, and every bit of what it was
wrong with.
-/

namespace HitTest

attribute [ext] Triangle Sphere Box Segment Ray

variable {α S : Type}

/-! ## Texts that say where they end -/

/-- A text ends at the first place of a character that is not in it. -/
theorem eq_of_append_cons_eq {c : Char} {l l' r r' : List Char} (hl : c ∉ l) (hl' : c ∉ l')
    (e : l ++ c :: r = l' ++ c :: r') : l = l' ∧ r = r' := by
  have hbefore := congrArg (List.takeWhile (· ≠ c)) e
  have hafter := congrArg (List.dropWhile (· ≠ c)) e
  rw [takeWhile_append_cons hl, takeWhile_append_cons hl'] at hbefore
  rw [dropWhile_append_cons hl, dropWhile_append_cons hl'] at hafter
  exact ⟨hbefore, (List.cons.inj hafter).2⟩

/-- Whatever follows, the values are told apart by their texts, and what follows is too. -/
def Delimited (P : α → Prop) (text : α → List Char) : Prop :=
  ∀ ⦃a b : α⦄ ⦃r r' : List Char⦄, P a → P b → text a ++ r = text b ++ r' → a = b ∧ r = r'

/-- Fixed words before a value make no difference. -/
theorem Delimited.after {P : α → Prop} {text : α → List Char} (h : Delimited P text)
    (words : List Char) {a b : α} {r r' : List Char} (ha : P a) (hb : P b)
    (e : words ++ (text a ++ r) = words ++ (text b ++ r')) : a = b ∧ r = r' :=
  h ha hb (List.append_cancel_left e)

/-- The texts of some scalars tell them apart, and leave out what stands between scalars. -/
structure Legible [ToString S] (P : S → Prop) : Prop where
  injective : ∀ x y, P x → P y → toString x = toString y → x = y
  plain : ∀ x, P x → ∀ c ∈ [',', '[', ']', ' ', '\n'], c ∉ (toString x).toList

/-! ## Shapes -/

section All

variable (P : S → Prop)

/-- A property of all scalars of a segment or ray. -/
def Probe.All : Probe S → Prop
  | segment s => s.start.All P ∧ s.finish.All P
  | ray r => r.origin.All P ∧ r.direction.All P

/-- A property of all scalars of a configuration. -/
def Subject.All : Subject S → Prop
  | triangle u v t tri probe => (P u ∧ P v ∧ P t) ∧ tri.All P ∧ probe.All P
  | sphere t s probe => P t ∧ s.All P ∧ probe.All P
  | box b probe => b.All P ∧ probe.All P

end All

section Shapes

variable [ToString S] {P : S → Prop}

/-- A scalar ends at what stands after it. -/
theorem Legible.cut (h : Legible P) {c : Char} (hc : c ∈ [',', '[', ']', ' ', '\n'])
    (words : List Char) {x y : S} {r r' : List Char} (hx : P x) (hy : P y)
    (e : words ++ ((toString x).toList ++ c :: r) = words ++ ((toString y).toList ++ c :: r')) :
    x = y ∧ r = r' := by
  obtain ⟨htext, hrest⟩ := eq_of_append_cons_eq (h.plain x hx c hc) (h.plain y hy c hc)
    (List.append_cancel_left e)
  exact ⟨h.injective x y hx hy (String.toList_inj.1 htext), hrest⟩

theorem Vec3.delimited (h : Legible P) :
    Delimited (Vec3.All P) fun a : Vec3 S => (toString a).toList := by
  have htext : ∀ (a : Vec3 S) (r : List Char), (toString a).toList ++ r =
      "Vector3 [".toList ++ ((toString a.x).toList ++ ',' :: ([' '] ++ ((toString a.y).toList ++
        ',' :: ([' '] ++ ((toString a.z).toList ++ ']' :: r))))) := by
    intro a r
    have e : toString a = "Vector3 [" ++ toString a.x ++ ", " ++ toString a.y ++ ", " ++
        toString a.z ++ "]" := rfl
    simp [e]
  intro a b r r' ha hb e
  dsimp only at e
  rw [htext, htext] at e
  obtain ⟨hx, e⟩ := h.cut (by simp) _ ha.1 hb.1 e
  obtain ⟨hy, e⟩ := h.cut (by simp) _ ha.2.1 hb.2.1 e
  obtain ⟨hz, e⟩ := h.cut (by simp) _ ha.2.2 hb.2.2 e
  exact ⟨Vec3.ext hx hy hz, e⟩

theorem Triangle.delimited (h : Legible P) :
    Delimited (Triangle.All P) fun t : Triangle S => (toString t).toList := by
  have hv := Vec3.delimited h
  have htext : ∀ (t : Triangle S) (r : List Char), (toString t).toList ++ r =
      "triangle: v0 = ".toList ++ ((toString t.v0).toList ++ (", v1 = ".toList ++
        ((toString t.v1).toList ++ (", v2 = ".toList ++ ((toString t.v2).toList ++ r))))) := by
    intro t r
    have e : toString t = "triangle: v0 = " ++ toString t.v0 ++ ", v1 = " ++ toString t.v1 ++
        ", v2 = " ++ toString t.v2 := rfl
    simp [e]
  intro a b r r' ha hb e
  dsimp only at e
  rw [htext, htext] at e
  obtain ⟨h0, e⟩ := hv.after _ ha.1 hb.1 e
  obtain ⟨h1, e⟩ := hv.after _ ha.2.1 hb.2.1 e
  obtain ⟨h2, e⟩ := hv.after _ ha.2.2 hb.2.2 e
  exact ⟨Triangle.ext h0 h1 h2, e⟩

/-- Two vectors with words before each of them. -/
theorem Vec3.pair_eq (h : Legible P) (first second : List Char) {a b c d : Vec3 S}
    {r r' : List Char} (ha : a.All P) (hb : b.All P) (hc : c.All P) (hd : d.All P)
    (e : first ++ ((toString a).toList ++ (second ++ ((toString c).toList ++ r))) =
      first ++ ((toString b).toList ++ (second ++ ((toString d).toList ++ r')))) :
    (a = b ∧ c = d) ∧ r = r' := by
  obtain ⟨hab, e⟩ := (delimited h).after _ ha hb e
  obtain ⟨hcd, e⟩ := (delimited h).after _ hc hd e
  exact ⟨⟨hab, hcd⟩, e⟩

theorem toList_segment (s : Segment S) (r : List Char) : (toString s).toList ++ r =
    "line segment: start = ".toList ++ ((toString s.start).toList ++
      (", end = ".toList ++ ((toString s.finish).toList ++ r))) := by
  have e : toString s = "line segment: start = " ++ toString s.start ++ ", end = " ++
      toString s.finish := rfl
  simp [e]

theorem toList_ray (s : Ray S) (r : List Char) : (toString s).toList ++ r =
    "ray: origin = ".toList ++ ((toString s.origin).toList ++
      (", direction = ".toList ++ ((toString s.direction).toList ++ r))) := by
  have e : toString s = "ray: origin = " ++ toString s.origin ++ ", direction = " ++
      toString s.direction := rfl
  simp [e]

theorem toList_box (b : Box S) (r : List Char) : (toString b).toList ++ r =
    "box: min = ".toList ++ ((toString b.least).toList ++
      (", max = ".toList ++ ((toString b.greatest).toList ++ r))) := by
  have e : toString b = "box: min = " ++ toString b.least ++ ", max = " ++
      toString b.greatest := rfl
  simp [e]

theorem Probe.delimited (h : Legible P) :
    Delimited (Probe.All P) fun p : Probe S => (toString p).toList := by
  have hsegment : ∀ s : Segment S, toString (Probe.segment s) = toString s := fun _ => rfl
  have hray : ∀ r : Ray S, toString (Probe.ray r) = toString r := fun _ => rfl
  intro a b r r' ha hb e
  dsimp only at e
  cases a with
  | segment s =>
    cases b with
    | segment s' =>
      rw [hsegment, hsegment, toList_segment, toList_segment] at e
      obtain ⟨⟨hstart, hfinish⟩, e⟩ := Vec3.pair_eq h _ _ ha.1 hb.1 ha.2 hb.2 e
      exact ⟨congrArg Probe.segment (Segment.ext hstart hfinish), e⟩
    | ray s' =>
      rw [hsegment, hray, toList_segment, toList_ray] at e
      simp at e
  | ray s =>
    cases b with
    | segment s' =>
      rw [hray, hsegment, toList_segment, toList_ray] at e
      simp at e
    | ray s' =>
      rw [hray, hray, toList_ray, toList_ray] at e
      obtain ⟨⟨horigin, hdirection⟩, e⟩ := Vec3.pair_eq h _ _ ha.1 hb.1 ha.2 hb.2 e
      exact ⟨congrArg Probe.ray (Ray.ext horigin hdirection), e⟩

/-! ## Configurations -/

namespace Subject

theorem toList_triangle (u v t : S) (tri : Triangle S) (p : Probe S) (r : List Char) :
    (description (.triangle u v t tri p)).toList ++ r = "u = ".toList ++ ((toString u).toList ++
      ',' :: (" v = ".toList ++ ((toString v).toList ++ ',' :: (" t = ".toList ++
        ((toString t).toList ++ '\n' :: ((toString tri).toList ++ (['\n'] ++
          ((toString p).toList ++ r)))))))) := by
  have e : description (.triangle u v t tri p) = "u = " ++ toString u ++ ", v = " ++ toString v ++
      ", t = " ++ toString t ++ "\n" ++ toString tri ++ "\n" ++ toString p := rfl
  simp [e]

theorem toList_sphere (t : S) (s : Sphere S) (p : Probe S) (r : List Char) :
    (description (.sphere t s p)).toList ++ r = "t = ".toList ++ ((toString t).toList ++
      '\n' :: ("sphere: center = ".toList ++ ((toString s.center).toList ++
        (", radius = ".toList ++ ((toString s.radius).toList ++
          '\n' :: ((toString p).toList ++ r)))))) := by
  have e : description (.sphere t s p) = "t = " ++ toString t ++ "\n" ++ ("sphere: center = " ++
      toString s.center ++ ", radius = " ++ toString s.radius) ++ "\n" ++ toString p := rfl
  simp [e]

theorem toList_boxProbe (b : Box S) (p : Probe S) (r : List Char) :
    (description (.box b p)).toList ++ r =
      "box: min = ".toList ++ ((toString b.least).toList ++ (", max = ".toList ++
        ((toString b.greatest).toList ++ (['\n'] ++ ((toString p).toList ++ r))))) := by
  have e : description (.box b p) = toString b ++ "\n" ++ toString p := rfl
  rw [e, String.toList_append, String.toList_append, List.append_assoc, List.append_assoc,
    toList_box]
  simp

/-- A configuration is told in full. -/
theorem delimited (h : Legible P) :
    Delimited (Subject.All P) fun s : Subject S => s.description.toList := by
  intro a b r r' ha hb e
  dsimp only at e
  -- the kinds of configurations are told apart by their first words
  cases a with
  | triangle u v t tri p =>
    rw [toList_triangle] at e
    cases b with
    | triangle u' v' t' tri' p' =>
      rw [toList_triangle] at e
      obtain ⟨⟨hu, hv, ht⟩, htri, hp⟩ := ha
      obtain ⟨⟨hu', hv', ht'⟩, htri', hp'⟩ := hb
      obtain ⟨eu, e1⟩ := h.cut (by simp) _ hu hu' e
      obtain ⟨ev, e2⟩ := h.cut (by simp) _ hv hv' e1
      obtain ⟨et, e3⟩ := h.cut (by simp) _ ht ht' e2
      obtain ⟨etri, e4⟩ := Triangle.delimited h htri htri' e3
      obtain ⟨ep, e5⟩ := (Probe.delimited h).after _ hp hp' e4
      rw [eu, ev, et, etri, ep]
      exact ⟨rfl, e5⟩
    | sphere t' s' p' =>
      rw [toList_sphere] at e
      simp at e
    | box b' p' =>
      rw [toList_boxProbe] at e
      simp at e
  | sphere t s p =>
    rw [toList_sphere] at e
    cases b with
    | triangle u' v' t' tri' p' =>
      rw [toList_triangle] at e
      simp at e
    | sphere t' s' p' =>
      rw [toList_sphere] at e
      obtain ⟨ht, hs, hp⟩ := ha
      obtain ⟨ht', hs', hp'⟩ := hb
      obtain ⟨et, e1⟩ := h.cut (by simp) _ ht ht' e
      obtain ⟨ecenter, e2⟩ := (Vec3.delimited h).after _ hs.1 hs'.1 e1
      obtain ⟨eradius, e3⟩ := h.cut (by simp) _ hs.2 hs'.2 e2
      obtain ⟨ep, e4⟩ := Probe.delimited h hp hp' e3
      rw [et, Sphere.ext ecenter eradius, ep]
      exact ⟨rfl, e4⟩
    | box b' p' =>
      rw [toList_boxProbe] at e
      simp at e
  | box c p =>
    rw [toList_boxProbe] at e
    cases b with
    | triangle u' v' t' tri' p' =>
      rw [toList_triangle] at e
      simp at e
    | sphere t' s' p' =>
      rw [toList_sphere] at e
      simp at e
    | box c' p' =>
      rw [toList_boxProbe] at e
      obtain ⟨hc, hp⟩ := ha
      obtain ⟨hc', hp'⟩ := hb
      obtain ⟨⟨eleast, egreatest⟩, e1⟩ := Vec3.pair_eq h _ _ hc.1 hc'.1 hc.2 hc'.2 e
      obtain ⟨ep, e2⟩ := (Probe.delimited h).after _ hp hp' e1
      rw [Box.ext eleast egreatest, ep]
      exact ⟨rfl, e2⟩

theorem eq_of_description_eq (h : Legible P) {s s' : Subject S} (hs : s.All P) (hs' : s'.All P)
    (e : s.description = s'.description) : s = s' :=
  (delimited h hs hs' (congrArg (·.toList ++ []) e)).1

end Subject

/-! ## Messages -/

omit [ToString S] in
theorem Subject.hash_not_mem_kind (s : Subject S) : '#' ∉ s.kind.toList := by
  rcases s with ⟨_, _, _, _, p⟩ | ⟨_, _, p⟩ | ⟨_, p⟩ <;> cases p <;> simp [Subject.kind]

theorem toList_mismatchMessage (n : Nat) (m : Mismatch) (s : Subject S) :
    (mismatchMessage n m s).toList =
      ("Failed ".toList ++ s.kind.toList ++ " intersection test ".toList) ++ '#' ::
        ((toString n).toList ++ ':' :: ([' '] ++ (m.label.toList ++ '!' ::
          (['\n'] ++ s.description.toList)))) := by
  have e : mismatchMessage n m s = "Failed " ++ s.kind ++ " intersection test #" ++ toString n ++
      ": " ++ m.label ++ "!\n" ++ s.description := rfl
  simp [e]

/-- The message of a mismatch tells the number of the trial, what was wrong, and the configuration
in full. -/
theorem eq_of_mismatchMessage_eq (h : Legible P) {n n' : Nat} {m m' : Mismatch} {s s' : Subject S}
    (hs : s.All P) (hs' : s'.All P) (e : mismatchMessage n m s = mismatchMessage n' m' s') :
    n = n' ∧ m = m' ∧ s = s' := by
  have hhash : ∀ s : Subject S, '#' ∉ "Failed ".toList ++ s.kind.toList ++
      " intersection test ".toList := by
    intro s hmem
    simp only [List.mem_append] at hmem
    rcases hmem with (hmem | hmem) | hmem
    · revert hmem
      decide
    · exact s.hash_not_mem_kind hmem
    · revert hmem
      decide
  have hlist := congrArg String.toList e
  rw [toList_mismatchMessage, toList_mismatchMessage] at hlist
  obtain ⟨-, hlist⟩ := eq_of_append_cons_eq (hhash s) (hhash s') hlist
  obtain ⟨hn, hlist⟩ :=
    eq_of_append_cons_eq (colon_not_mem_digits n) (colon_not_mem_digits n') hlist
  obtain ⟨hm, hlist⟩ := eq_of_append_cons_eq m.mark_not_mem_label m'.mark_not_mem_label
    (List.append_cancel_left hlist)
  refine ⟨?_, Mismatch.label_injective hm, Subject.eq_of_description_eq h hs hs' ?_⟩
  · have hdigits : Nat.toDigits 10 n = Nat.toDigits 10 n' := by
      rwa [← Nat.toList_repr, ← Nat.toList_repr]
    calc n = Nat.ofDigitChars 10 (Nat.toDigits 10 n) 0 := Nat.ofDigitChars_ten_toDigits.symm
      _ = Nat.ofDigitChars 10 (Nat.toDigits 10 n') 0 := by rw [hdigits]
      _ = n' := Nat.ofDigitChars_ten_toDigits
  · exact String.toList_inj.1 (List.append_cancel_left hlist)

end Shapes

end HitTest
