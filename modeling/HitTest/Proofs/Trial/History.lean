import HitTest.Proofs.Random.Ensures
import HitTest.Trial.Suite

/-!
# The history of a run

A run of trials counts mismatches and keeps events, in separate places. `Progress.Grows` says that
the two tell the same: what was added to a count is the number of mismatches of that kind among the
events that were added. One comparison keeps to that, unless a counter is at its limit, and so does
a run of trials, whose events are those of the trials that were drawn, in order.
-/

namespace HitTest

/-! ## Counters -/

/-- A sum of counts fits its counter, or it is an overflow. -/
theorem addCounts_cases (a b : UInt32) : (∃ c, addCounts a b = .ok c ∧ c.toNat = a.toNat + b.toNat) ∨
    addCounts a b = .error .overflow ∧ UInt32.size ≤ a.toNat + b.toNat := by
  unfold addCounts
  split
  · rename_i h
    have hsum : (a + b).toNat = a.toNat + b.toNat := by
      rw [UInt32.toNat_add]
      exact Nat.mod_eq_of_lt h
    exact .inl ⟨a + b, rfl, hsum⟩
  · rename_i h
    exact .inr ⟨rfl, Nat.not_lt.1 h⟩

namespace Tally

/-- The count of one kind of mismatch. -/
def count (t : Tally) : Mismatch → UInt32
  | .falsePositive => t.falsePositives
  | .falseNegative => t.falseNegatives
  | .notEquivalent => t.notEquivalent

/-- The mismatches of all kinds, as a number of any size. -/
def total (t : Tally) : Nat :=
  t.falsePositives.toNat + t.falseNegatives.toNat + t.notEquivalent.toNat

/-- Tallies of the same number of trials differ in a count. -/
theorem eq_of_count_eq {t t' : Tally} (htrials : t.trials = t'.trials)
    (hcount : ∀ m, t.count m = t'.count m) : t = t' := by
  cases t
  cases t'
  have hp := hcount .falsePositive
  have hn := hcount .falseNegative
  have he := hcount .notEquivalent
  simp only [count] at hp hn he
  simp only [mk.injEq]
  exact ⟨htrials, hp, hn, he⟩

/-- Recording a mismatch adds one to its count and changes nothing else, unless the count is at its
limit. -/
theorem record_cases (t : Tally) (m : Mismatch) :
    (∃ t' : Tally, t.record m = .ok t' ∧ t'.trials = t.trials ∧
      ∀ k, (t'.count k).toNat = (t.count k).toNat + [m].count k) ∨
    t.record m = .error .overflow ∧ UInt32.size ≤ (t.count m).toNat + 1 := by
  rcases addCounts_cases (t.count m) 1 with ⟨c, hc, hn⟩ | ⟨hc, hn⟩
  · left
    cases m <;> simp only [count] at hc hn <;> simp only [record, hc] <;>
      refine ⟨_, rfl, rfl, ?_⟩ <;> intro k <;> cases k <;> simp [count, hn]
  · right
    cases m <;> simp only [count] at hc hn <;> simp only [record, hc, count] <;> exact ⟨rfl, hn⟩

end Tally

/-! ## Comparisons -/

namespace Mismatch

/-- Every mismatch is of one of the three kinds. -/
theorem count_add_count (l : List Mismatch) :
    l.count falsePositive + l.count falseNegative + l.count notEquivalent = l.length := by
  induction l with
  | nil => rfl
  | cons m l ih => cases m <;> simp <;> omega

/-- Nothing is wrong with an answer if and only if it is the expected one. -/
theorem ofAnswer_eq_none_iff {expected actual : Bool} :
    ofAnswer expected actual = none ↔ expected = actual := by
  cases expected <;> cases actual <;> simp [ofAnswer]

/-- An answer without a point is not wrong about the point. -/
theorem ofAnswer_ne_notEquivalent (expected actual : Bool) :
    ofAnswer expected actual ≠ some notEquivalent := by
  cases expected <;> cases actual <;> simp [ofAnswer]

end Mismatch

section Comparisons

variable {S : Type}

/-- The mismatch that an event is about. -/
def TrialEvent.mismatch? : TrialEvent S → Option Mismatch
  | .note _ => none
  | .mismatch _ m _ => some m

/-- What a comparison adds to the events, as part of the trial with a number. -/
def Comparison.events (c : Comparison S) (number : Nat) : List (TrialEvent S) :=
  c.notes.map .note ++ (c.mismatch.map fun m => .mismatch number m c.subject).toList

/-- What is read off the events of a comparison, if nothing is read off notes. -/
theorem Comparison.filterMap_events {α : Type} {read : TrialEvent S → Option α}
    (hread : ∀ n, read (.note n) = none) (c : Comparison S) (number : Nat) :
    (c.events number).filterMap read =
      (c.mismatch.bind fun m => read (.mismatch number m c.subject)).toList := by
  have hnotes : (c.notes.map TrialEvent.note).filterMap read = [] := by
    simp [List.filterMap_map, hread]
  rw [events, List.filterMap_append, hnotes, List.nil_append]
  cases c.mismatch with
  | none => rfl
  | some m =>
    change [TrialEvent.mismatch number m c.subject].filterMap read =
      (read (.mismatch number m c.subject)).toList
    cases hm : read (.mismatch number m c.subject) <;> simp [hm]

theorem Comparison.filterMap_mismatch_events (c : Comparison S) (number : Nat) :
    (c.events number).filterMap TrialEvent.mismatch? = c.mismatch.toList := by
  rw [c.filterMap_events fun _ => rfl]
  cases c.mismatch <;> rfl

namespace Progress

variable {p p' p'' : Progress S} {new new' : List (TrialEvent S)}

@[simp] theorem count_start (trials : UInt32) (m : Mismatch) :
    ((start trials : Progress S).tally.count m).toNat = 0 := by
  cases m <;> rfl

/-- Events were added, and every count was increased by the number of them that are about it. -/
structure Grows (p p' : Progress S) (new : List (TrialEvent S)) : Prop where
  trials : p'.tally.trials = p.tally.trials
  events : p'.events.toList = p.events.toList ++ new
  count : ∀ m, (p'.tally.count m).toNat =
    (p.tally.count m).toNat + (new.filterMap TrialEvent.mismatch?).count m

theorem Grows.refl (p : Progress S) : p.Grows p [] := ⟨rfl, by simp, by simp⟩

/-- A run that starts with nothing has only what was added. -/
theorem Grows.events_of_start {trials : UInt32} (h : (start trials).Grows p new) :
    p.events.toList = new := h.events

theorem Grows.trans (h : p.Grows p' new) (h' : p'.Grows p'' new') : p.Grows p'' (new ++ new') where
  trials := h'.trials.trans h.trials
  events := by rw [h'.events, h.events, List.append_assoc]
  count m := by rw [h'.count, h.count, List.filterMap_append, List.count_append, Nat.add_assoc]

/-- Notes and mismatch of a comparison are added, unless the count is at its limit. -/
theorem add_cases (p : Progress S) (number : Nat) (c : Comparison S) :
    (∃ p', p.add number c = .ok p' ∧ p.Grows p' (c.events number)) ∨
    p.add number c = .error (.overflow .overflow) ∧
      ∃ m, c.mismatch = some m ∧ UInt32.size ≤ (p.tally.count m).toNat + 1 := by
  have hnotes : (c.notes.foldl (fun events n => events.push (.note n)) p.events).toList =
      p.events.toList ++ c.notes.map .note := by
    rw [← Array.toList_append]
    simp
  have hnew := c.filterMap_mismatch_events number
  unfold add
  cases hm : c.mismatch with
  | none =>
    rw [hm] at hnew
    refine .inl ⟨_, rfl, rfl, ?_, ?_⟩
    · rw [hnotes, Comparison.events, hm, Option.map_none, Option.toList_none, List.append_nil]
    · simp [hnew]
  | some m =>
    rw [hm] at hnew
    rcases p.tally.record_cases m with ⟨t, ht, htrials, hcount⟩ | ⟨ht, hfull⟩
    · refine .inl ⟨_, by simp only [ht]; rfl, htrials, ?_, ?_⟩
      · simp only [Array.toList_push, hnotes, Comparison.events, hm, List.append_assoc]
        rfl
      · simpa [hnew] using hcount
    · exact .inr ⟨by simp only [ht], m, rfl, hfull⟩

/-- Counts comparisons one after the other, each as part of the trial with a number. -/
def addAll (p : Progress S) (cs : List (Nat × Comparison S)) : Except (Fault S) (Progress S) :=
  cs.foldlM (fun p c => p.add c.1 c.2) p

theorem addAll_cases (cs : List (Nat × Comparison S)) : ∀ p : Progress S,
    (∃ p', p.addAll cs = .ok p' ∧ p.Grows p' (cs.flatMap fun c => c.2.events c.1)) ∨
    p.addAll cs = .error (.overflow .overflow) ∧ ∃ m,
      UInt32.size ≤ (p.tally.count m).toNat + (cs.filterMap fun c => c.2.mismatch).count m := by
  induction cs with
  | nil => exact fun p => .inl ⟨p, rfl, .refl p⟩
  | cons c cs ih =>
    intro p
    have hcons : (c :: cs).filterMap (fun c => c.2.mismatch) =
        c.2.mismatch.toList ++ cs.filterMap fun c => c.2.mismatch := by
      cases hm : c.2.mismatch <;> simp [hm]
    rw [hcons, addAll, List.foldlM_cons]
    rcases p.add_cases c.1 c.2 with ⟨p1, h1, hgrows⟩ | ⟨h1, m, hm, hfull⟩
    · rw [h1]
      rcases ih p1 with ⟨p2, h2, hrest⟩ | ⟨h2, m, hfull⟩
      · exact .inl ⟨p2, h2, hgrows.trans hrest⟩
      · refine .inr ⟨h2, m, ?_⟩
        rw [hgrows.count, c.2.filterMap_mismatch_events] at hfull
        rw [List.count_append]
        omega
    · refine .inr ⟨by rw [h1]; rfl, m, Nat.le_trans hfull ?_⟩
      rw [hm, List.count_append, Option.toList_some, List.count_singleton_self]
      omega

theorem grows_of_addAll {cs : List (Nat × Comparison S)} (h : p.addAll cs = .ok p') :
    p.Grows p' (cs.flatMap fun c => c.2.events c.1) := by
  rcases addAll_cases cs p with ⟨p2, h2, hgrows⟩ | ⟨h2, -⟩
  · rw [h] at h2
    cases h2
    exact hgrows
  · rw [h] at h2
    cases h2

end Progress

/-! ## Trials -/

/-- The comparisons of trials, each with the number of its trial. -/
def Trial.numbered : Nat → List (Trial S) → List (Nat × Comparison S)
  | _, [] => []
  | number, t :: ts => (number, t.segment) :: (number, t.ray) :: numbered (number + 1) ts

/-- What trials add to the events of a run. -/
def Trial.history (first : Nat) (ts : List (Trial S)) : List (TrialEvent S) :=
  (numbered first ts).flatMap fun c => c.2.events c.1

/-- The mismatches of trials. -/
def Trial.mismatches (ts : List (Trial S)) : List Mismatch :=
  ts.flatMap fun t => t.segment.mismatch.toList ++ t.ray.mismatch.toList

theorem Trial.filterMap_numbered (ts : List (Trial S)) : ∀ first : Nat,
    (numbered first ts).filterMap (fun c => c.2.mismatch) = mismatches ts := by
  induction ts with
  | nil => exact fun _ => rfl
  | cons t ts ih =>
    intro first
    rw [mismatches, List.flatMap_cons, ← mismatches, ← ih (first + 1), numbered]
    cases hs : t.segment.mismatch <;> cases hr : t.ray.mismatch <;> simp [hs, hr]

/-- What is kept of trials tells their mismatches. -/
theorem Trial.filterMap_history (first : Nat) (ts : List (Trial S)) :
    (history first ts).filterMap TrialEvent.mismatch? = mismatches ts := by
  rw [← filterMap_numbered ts first, history]
  induction numbered first ts with
  | nil => rfl
  | cons c cs ih =>
    rw [List.flatMap_cons, List.filterMap_append, ih, Comparison.filterMap_mismatch_events]
    cases hm : c.2.mismatch <;> simp [hm]

/-- A mismatch that is kept of trials is that of a comparison of the trial with its number. -/
theorem Trial.exists_of_mem_history {n : Nat} {m : Mismatch} {s : Subject S} (ts : List (Trial S)) :
    ∀ first : Nat, .mismatch n m s ∈ history first ts → ∃ i t, n = first + i ∧ ts[i]? = some t ∧
      ∃ c ∈ [t.segment, t.ray], c.mismatch = some m ∧ c.subject = s := by
  have hevents : ∀ {c : Comparison S} {k : Nat}, .mismatch n m s ∈ c.events k →
      n = k ∧ c.mismatch = some m ∧ c.subject = s := by
    intro c k hmem
    cases hc : c.mismatch <;> simp_all [Comparison.events]
  induction ts with
  | nil => simp [history, numbered]
  | cons t ts ih =>
    intro first hmem
    rw [history, numbered, List.flatMap_cons, List.flatMap_cons, List.mem_append, List.mem_append]
      at hmem
    rcases hmem with hmem | hmem | hmem
    · exact ⟨0, t, (hevents hmem).1, rfl, t.segment, by simp, (hevents hmem).2⟩
    · exact ⟨0, t, (hevents hmem).1, rfl, t.ray, by simp, (hevents hmem).2⟩
    · obtain ⟨i, t', hn, ht', hc⟩ := ih (first + 1) hmem
      exact ⟨i + 1, t', by omega, ht', hc⟩

theorem Trial.exists_of_mem_mismatches {m : Mismatch} {ts : List (Trial S)}
    (h : m ∈ mismatches ts) : ∃ t ∈ ts, ∃ c ∈ [t.segment, t.ray], c.mismatch = some m := by
  simpa [mismatches, List.mem_flatMap] using h

theorem Trial.mismatches_append (ts ts' : List (Trial S)) :
    mismatches (ts ++ ts') = mismatches ts ++ mismatches ts' := List.flatMap_append

theorem Trial.mismatches_eq_nil_iff {ts : List (Trial S)} : mismatches ts = [] ↔
    ∀ t ∈ ts, t.segment.mismatch = none ∧ t.ray.mismatch = none := by
  simp [mismatches]

/-- A trial has two comparisons. -/
theorem Trial.length_mismatches_le (ts : List (Trial S)) :
    (mismatches ts).length ≤ 2 * ts.length := by
  induction ts with
  | nil => exact Nat.le_refl 0
  | cons t ts ih =>
    rw [mismatches, List.flatMap_cons, ← mismatches, List.length_append, List.length_cons]
    have hs := Option.length_toList_le (o := t.segment.mismatch)
    have hr := Option.length_toList_le (o := t.ray.mismatch)
    rw [List.length_append]
    omega

/-- Trials are counted one after the other. -/
theorem Progress.addAll_numbered_cons (p : Progress S) (first : Nat) (t : Trial S)
    (ts : List (Trial S)) : p.addAll (Trial.numbered first (t :: ts)) =
      (p.addAll (Trial.numbered first [t])).bind (·.addAll (Trial.numbered (first + 1) ts)) :=
  List.foldlM_append (l := Trial.numbered first [t])

/-- Trials can be counted unless there are too many mismatches of a kind. -/
theorem Progress.addAll_eq_error {p : Progress S} {first : Nat} {ts : List (Trial S)} {e : Fault S}
    (h : p.addAll (Trial.numbered first ts) = .error e) : e = .overflow .overflow ∧
      ∃ m, UInt32.size ≤ (p.tally.count m).toNat + (Trial.mismatches ts).count m := by
  rcases addAll_cases (Trial.numbered first ts) p with ⟨p2, h2, -⟩ | ⟨h2, hfull⟩
  · rw [h] at h2
    cases h2
  · rw [h] at h2
    cases h2
    exact ⟨rfl, Trial.filterMap_numbered ts first ▸ hfull⟩

section Start

variable {trials : UInt32} {p : Progress S} {first : Nat} {ts : List (Trial S)}

/-- A run that starts with nothing has counted the mismatches of its trials. -/
theorem Progress.Grows.count_of_start (h : (start trials).Grows p (Trial.history first ts))
    (m : Mismatch) : (p.tally.count m).toNat = (Trial.mismatches ts).count m := by
  rw [h.count, Trial.filterMap_history, count_start, Nat.zero_add]

theorem Progress.Grows.total_of_start (h : (start trials).Grows p (Trial.history first ts)) :
    p.tally.total = (Trial.mismatches ts).length := by
  rw [← Mismatch.count_add_count, ← h.count_of_start, ← h.count_of_start, ← h.count_of_start]
  rfl

end Start

end Comparisons

namespace Suite

variable {G S : Type} [Scalar S] [ScalarSource G S] {suite : Suite} {tries : Nat}

/-- Trials that are drawn one after the other, from a source, and what that leaves of it. -/
inductive Drawn (suite : Suite) (tries : Nat) : G → List (Trial S) → G → Prop
  | nil (g : G) : Drawn suite tries g [] g
  | cons {g g1 g2 : G} {t : Trial S} {ts : List (Trial S)} :
      (suite.trial tries).run g = .ok (t, g1) → Drawn suite tries g1 ts g2 →
        Drawn suite tries g (t :: ts) g2

/-- What a suite ensures of every trial holds of all trials that are drawn, and of the source. -/
theorem Drawn.forall {I : G → Prop} {Q : Trial S → Prop} {E : Fault S → Prop}
    (h : (suite.trial tries : Draw G S (Trial S)).Ensures I Q E) {g g' : G} {ts : List (Trial S)}
    (hts : suite.Drawn tries g ts g') (hg : I g) : I g' ∧ ∀ t ∈ ts, Q t := by
  induction hts with
  | nil => exact ⟨hg, by simp⟩
  | cons ht _ ih =>
    obtain ⟨hg1, hQ⟩ := h.of_ok hg ht
    exact ⟨(ih hg1).1, List.forall_mem_cons.2 ⟨hQ, (ih hg1).2⟩⟩

/-- How a run of trials ends. -/
inductive Ending (suite : Suite) (tries count first : Nat) (p : Progress S) (g : G) :
    Except (Fault S) (Progress S × G) → Prop
  /-- All trials were drawn and counted. -/
  | counted {ts : List (Trial S)} {p' : Progress S} {g' : G} :
      ts.length = count → suite.Drawn tries g ts g' → p.addAll (Trial.numbered first ts) = .ok p' →
        Ending suite tries count first p g (.ok (p', g'))
  /-- The last trial that was drawn cannot be counted. -/
  | full {ts : List (Trial S)} {g' : G} {e : Fault S} :
      ts.length ≤ count → suite.Drawn tries g ts g' →
        p.addAll (Trial.numbered first ts) = .error e →
          Ending suite tries count first p g (.error e)
  /-- The next trial cannot be drawn. -/
  | undrawn {ts : List (Trial S)} {g' : G} {e : Fault S} :
      ts.length < count → suite.Drawn tries g ts g' → (suite.trial tries).run g' = .error e →
        Ending suite tries count first p g (.error e)

/-- A trial that was drawn is counted, and then come the rest of the trials. -/
theorem trials_succ_run_of_drawn {g g1 : G} {t : Trial S} (count first : Nat) (p : Progress S)
    (ht : (suite.trial tries).run g = .ok (t, g1)) :
    (suite.trials tries (count + 1) first p).run g =
      (p.addAll (Trial.numbered first [t])).bind fun p' =>
        (suite.trials tries count (first + 1) p').run g1 := by
  rw [trials, Draw.run_bind_of_ok _ ht, Trial.numbered, Progress.addAll, List.foldlM_cons]
  cases p.add first t.segment with
  | error e => rfl
  | ok p1 =>
    refine (Draw.run_lift_bind_of_ok _ rfl).trans ?_
    change _ = ((p1.add first t.ray).bind Except.ok).bind _
    cases p1.add first t.ray <;> rfl

/-- A run of trials ends in one of these ways. -/
theorem trials_run_ending (suite : Suite) (tries count : Nat) : ∀ (first : Nat) (p : Progress S)
    (g : G), suite.Ending tries count first p g ((suite.trials tries count first p).run g) := by
  -- the trial that is drawn first goes in front of those that the rest of the run draws
  induction count with
  | zero => exact fun first p g => .counted rfl (.nil g) rfl
  | succ count ih =>
    intro first p g
    cases ht : (suite.trial tries : Draw G S (Trial S)).run g with
    | error e =>
      rw [trials, Draw.run_bind_of_error _ ht]
      exact .undrawn (by simp) (.nil g) ht
    | ok r =>
      obtain ⟨t, g1⟩ := r
      rw [trials_succ_run_of_drawn count first p ht]
      have hadd := p.addAll_numbered_cons first t
      cases hp : p.addAll (Trial.numbered first [t]) with
      | error e => exact .full (by simp) (.cons ht (.nil g1)) hp
      | ok p1 =>
        simp only [hp] at hadd
        change suite.Ending tries _ first p g ((suite.trials tries count (first + 1) p1).run g1)
        have hrest := ih (first + 1) p1 g1
        generalize (suite.trials tries count (first + 1) p1 :
          Draw G S (Progress S)).run g1 = r at hrest ⊢
        cases hrest with
        | counted hlen hts hok => exact .counted (by simp [hlen]) (.cons ht hts) ((hadd _).trans hok)
        | full hlen hts he => exact .full (by simpa using hlen) (.cons ht hts) ((hadd _).trans he)
        | undrawn hlen hts he => exact .undrawn (by simpa using hlen) (.cons ht hts) he

variable {count first : Nat} {p p' : Progress S} {g g' : G}

/-- A run that succeeds has drawn as many trials as it was to run, and has grown by their history. -/
theorem exists_drawn_of_trials_run
    (h : (suite.trials tries count first p).run g = .ok (p', g')) : ∃ ts : List (Trial S),
      ts.length = count ∧ suite.Drawn tries g ts g' ∧ p.Grows p' (Trial.history first ts) := by
  have hend := suite.trials_run_ending tries count first p g
  rw [h] at hend
  cases hend with
  | counted hlen hts hok => exact ⟨_, hlen, hts, Progress.grows_of_addAll hok⟩

/-- A run of trials of which every one is drawn, or fails for certain reasons, succeeds, or fails
for one of these reasons in the draw that comes after some trials, or has drawn more mismatches of a
kind than can be counted. -/
theorem trials_run_cases (count first : Nat) (p : Progress S) {I : G → Prop} {Q : Trial S → Prop}
    {E : Fault S → Prop} (h : (suite.trial tries : Draw G S (Trial S)).Ensures I Q E) (hg : I g) :
    (∃ p' g' ts, (suite.trials tries count first p).run g = .ok (p', g') ∧ ts.length = count ∧
      suite.Drawn tries g ts g' ∧ (∀ t ∈ ts, Q t) ∧ p.Grows p' (Trial.history first ts)) ∨
    (∃ (e : Fault S) (ts : List (Trial S)) (g' : G),
      (suite.trials tries count first p).run g = .error e ∧ E e ∧ ts.length < count ∧
      suite.Drawn tries g ts g' ∧ (suite.trial tries).run g' = .error e) ∨
    ((suite.trials tries count first p).run g = .error (.overflow .overflow) ∧
      ∃ ts m, ts.length ≤ count ∧ (∀ t ∈ ts, Q t) ∧
        UInt32.size ≤ (p.tally.count m).toNat + (Trial.mismatches ts).count m) := by
  have hend := suite.trials_run_ending tries count first p g
  generalize (suite.trials tries count first p).run g = r at hend ⊢
  cases hend with
  | counted hlen hts hok =>
    exact .inl ⟨_, _, _, rfl, hlen, hts, (hts.forall h hg).2, Progress.grows_of_addAll hok⟩
  | full hlen hts he =>
    obtain ⟨rfl, m, hfull⟩ := Progress.addAll_eq_error he
    exact .inr (.inr ⟨rfl, _, m, hlen, (hts.forall h hg).2, hfull⟩)
  | undrawn hlen hts he =>
    exact .inr (.inl ⟨_, _, _, rfl, h.of_error (hts.forall h hg).1 he, hlen, hts, he⟩)

end Suite

end HitTest
