import HitTest.Proofs.Run.Outcome
import HitTest.Run.Settings

/-!
# Settings made one after the other (`VerificationBuilder`)

A plan depends on what was asked for, not on the way it was asked: on the last number of trials, the
last seed and the last rate, and on the suites in the order in which they were first asked for. `made`
says so for settings made from the beginning. Each further setting leads from what is made to what is
made with it, unless it is a rate that is refused; so does a row of settings, in which the order of
settings of different kinds makes no difference.
-/

namespace HitTest

open Binary hiding min max

/-! ## Lists with one more element -/

section Concat

variable {α β : Type}

theorem filterMap_concat (g : α → Option β) (l : List α) (a : α) :
    (l ++ [a]).filterMap g = l.filterMap g ++ (g a).toList := by
  rw [List.filterMap_append, List.filterMap_cons, List.filterMap_nil]
  cases g a <;> rfl

/-- The last of what is read counts. -/
theorem getLastD_filterMap_concat (g : α → Option β) (l : List α) (a : α) (b : β) :
    ((l ++ [a]).filterMap g).getLastD b = (g a).getD ((l.filterMap g).getLastD b) := by
  rw [filterMap_concat]
  cases g a with
  | none => rw [Option.toList_none, List.append_nil, Option.getD_none]
  | some c => rw [Option.toList_some, List.getLastD_concat, Option.getD_some]

variable [DecidableEq α]

/-- Of elements in the order of their first occurrence, one more is kept only if it is new. -/
theorem eraseDups_concat (l : List α) (a : α) :
    (l ++ [a]).eraseDups = if a ∈ l then l.eraseDups else l.eraseDups ++ [a] := by
  rw [List.eraseDups_append]
  by_cases h : a ∈ l <;> simp [List.removeAll, h, List.eraseDups_cons]

theorem nodup_eraseDups (l : List α) : l.eraseDups.Nodup := by
  induction l using List.reverseRecOn with
  | nil => simp
  | append_singleton l a ih =>
    rw [eraseDups_concat]
    split
    · exact ih
    · rename_i h
      rw [← List.concat_eq_append, List.nodup_concat, List.mem_eraseDups]
      exact ⟨h, ih⟩

end Concat

/-! ## What a setting asks for -/

namespace Setting

/-- What a setting is about. -/
inductive Kind where
  | trials
  | seed
  | maxFailureRate
  | suite
  deriving DecidableEq

def kind : Setting → Kind
  | trials _ => .trials
  | seed _ => .seed
  | maxFailureRate _ => .maxFailureRate
  | suite _ => .suite

def trials? : Setting → Option UInt32
  | trials n => some n
  | _ => none

def seed? : Setting → Option UInt64
  | seed n => some n
  | _ => none

def maxFailureRate? : Setting → Option Binary64
  | maxFailureRate rate => some rate
  | _ => none

def suite? : Setting → Option Suite
  | suite s => some s
  | _ => none

/-- Only settings of one kind are read as such. -/
theorem eq_none_of_kind (c : Setting) : (c.kind ≠ .trials → c.trials? = none) ∧
    (c.kind ≠ .seed → c.seed? = none) ∧ (c.kind ≠ .maxFailureRate → c.maxFailureRate? = none) ∧
      (c.kind ≠ .suite → c.suite? = none) := by
  cases c <;> simp [kind, trials?, seed?, maxFailureRate?, suite?]

/-- No plan is given a rate that is not a number or is below zero. A negative zero is not below
zero. -/
def IsRefused (c : Setting) : Prop :=
  ∃ rate : Binary64, c = maxFailureRate rate ∧ (rate.isNumber = false ∨ rate < 0)

/-- A rate is refused if it does not compare as at least zero. -/
theorem isRefused_maxFailureRate_iff {rate : Binary64} :
    (maxFailureRate rate).IsRefused ↔ ¬ 0 ≤ rate := by
  have h : (maxFailureRate rate).IsRefused ↔ rate.isNumber = false ∨ rate < 0 := by
    constructor
    · rintro ⟨_, ⟨⟩, h⟩
      exact h
    · intro h
      exact ⟨rate, rfl, h⟩
  rw [h, le_iff, lt_iff, place_zero]
  cases rate.isNumber <;> simp

end Setting

namespace Settings

variable {s : Settings} {c a b : Setting} {calls calls' : List Setting}

/-! ## One setting more -/

/-- What is made by several settings: of each kind the last one, and each suite once. -/
def made (calls : List Setting) : Settings where
  trials := (calls.filterMap Setting.trials?).getLastD 100000
  seed := (calls.filterMap Setting.seed?).getLastD defaultSeed
  maxFailureRate := (calls.filterMap Setting.maxFailureRate?).getLastD
    (Binary.ofNat 1 / Binary.ofNat 100)
  suites := (calls.filterMap Setting.suite?).eraseDups

/-- The suites with one more, unless it is there already. -/
def addSuite (suites : List Suite) (suite : Suite) : List Suite :=
  if suite ∈ suites then suites else suites ++ [suite]

theorem made_concat (calls : List Setting) (c : Setting) : made (calls ++ [c]) =
    ⟨c.trials?.getD (made calls).trials, c.seed?.getD (made calls).seed,
      c.maxFailureRate?.getD (made calls).maxFailureRate,
      c.suite?.elim (made calls).suites (addSuite (made calls).suites)⟩ := by
  have hsuites : ((calls ++ [c]).filterMap Setting.suite?).eraseDups =
      c.suite?.elim (made calls).suites (addSuite (made calls).suites) := by
    rw [filterMap_concat]
    cases c.suite? with
    | none => rw [Option.toList_none, List.append_nil, Option.elim_none, made]
    | some suite =>
      rw [Option.toList_some, eraseDups_concat, Option.elim_some, addSuite, made]
      simp only [List.mem_eraseDups]
  simp only [made, getLastD_filterMap_concat] at hsuites ⊢
  rw [hsuites]

theorem set_of_isRefused (h : c.IsRefused) (s : Settings) : s.set c = .error .badRate := by
  obtain ⟨rate, rfl, -⟩ := id h
  exact if_neg (Setting.isRefused_maxFailureRate_iff.1 h)

/-- What is not refused is made on top of what is made already. -/
theorem set_made (h : ¬ c.IsRefused) (calls : List Setting) :
    (made calls).set c = .ok (made (calls ++ [c])) := by
  rw [made_concat]
  cases c with
  | trials n => rfl
  | seed n => rfl
  | maxFailureRate rate =>
    rw [Setting.isRefused_maxFailureRate_iff, not_not] at h
    exact if_pos h
  | suite suite =>
    refine congrArg Except.ok ?_
    change _ = (⟨_, _, _, addSuite _ suite⟩ : Settings)
    rw [addSuite]
    split <;> rfl

/-! ## Settings in a row -/

/-- What is not refused is made, from the beginning. -/
theorem setAll_eq_made (h : ∀ c ∈ calls, ¬ c.IsRefused) : setAll {} calls = .ok (made calls) := by
  induction calls using List.reverseRecOn with
  | nil => rfl
  | append_singleton calls c ih =>
    have hcalls := ih fun c' hc' => h c' (List.mem_append_left _ hc')
    have hc := h c (List.mem_append_right _ (List.mem_singleton_self c))
    rw [setAll, List.foldlM_append, ← setAll, hcalls]
    change (made calls).set c >>= pure = _
    rw [bind_pure, set_made hc]

/-- One setting that is refused is enough, whatever comes before and after it. -/
theorem setAll_of_isRefused (h : ∃ c ∈ calls, c.IsRefused) (s : Settings) :
    setAll s calls = .error .badRate := by
  induction calls generalizing s with
  | nil =>
    obtain ⟨c, hc, -⟩ := h
    cases hc
  | cons c calls ih =>
    rw [setAll, List.foldlM_cons]
    cases hset : s.set c with
    | error e => rfl
    | ok s' =>
      refine ih ?_ s'
      obtain ⟨c', hc', hrefused⟩ := h
      rcases List.mem_cons.1 hc' with rfl | hmem
      · cases (set_of_isRefused hrefused s).symm.trans hset
      · exact ⟨c', hmem, hrefused⟩

theorem setAll_eq_error_iff : setAll {} calls = .error .badRate ↔ ∃ c ∈ calls, c.IsRefused := by
  constructor
  · intro herror
    by_contra hnone
    have hok : setAll {} calls = .ok (made calls) :=
      setAll_eq_made fun c hc hrefused => hnone ⟨c, hc, hrefused⟩
    cases herror.symm.trans hok
  · exact fun h => setAll_of_isRefused h {}

/-- What is read from settings of one kind does not change if neighbors of different kinds are
exchanged. -/
theorem filterMap_swap {β : Type} {g : Setting → Option β} {k : Setting.Kind}
    (hg : ∀ c : Setting, c.kind ≠ k → g c = none) (h : a.kind ≠ b.kind)
    (before after : List Setting) : (before ++ b :: a :: after).filterMap g =
      (before ++ a :: b :: after).filterMap g := by
  rw [List.filterMap_append, List.filterMap_append]
  refine congrArg _ ?_
  by_cases ha : a.kind = k
  · have hb := hg b fun hb => h (ha.trans hb.symm)
    rw [List.filterMap_cons_none hb, List.filterMap_cons, List.filterMap_cons,
      List.filterMap_cons_none hb]
  · have ha := hg a ha
    rw [List.filterMap_cons_none ha, List.filterMap_cons, List.filterMap_cons_none ha,
      List.filterMap_cons]

theorem made_swap (h : a.kind ≠ b.kind) (before after : List Setting) :
    made (before ++ b :: a :: after) = made (before ++ a :: b :: after) := by
  have hnone := Setting.eq_none_of_kind
  rw [made, made, filterMap_swap (fun c => (hnone c).1) h,
    filterMap_swap (fun c => (hnone c).2.1) h, filterMap_swap (fun c => (hnone c).2.2.1) h,
    filterMap_swap (fun c => (hnone c).2.2.2) h]

/-- Settings of different kinds can be made in either order. -/
theorem setAll_swap (h : a.kind ≠ b.kind) (before after : List Setting) :
    setAll {} (before ++ b :: a :: after) = setAll {} (before ++ a :: b :: after) := by
  have hmem : ∀ c, c ∈ before ++ b :: a :: after ↔ c ∈ before ++ a :: b :: after := by
    intro c
    simp only [List.mem_append, List.mem_cons]
    tauto
  by_cases hrefused : ∃ c ∈ before ++ a :: b :: after, c.IsRefused
  · rw [setAll_of_isRefused hrefused]
    refine setAll_of_isRefused ?_ {}
    simpa only [hmem] using hrefused
  · have hrefused := fun c hc hc' => hrefused ⟨c, hc, hc'⟩
    rw [setAll_eq_made hrefused, setAll_eq_made (by simpa only [hmem] using hrefused),
      made_swap h]

/-! ## The plan -/

/-- All suites are run only if none was asked for. -/
theorem plan_made (calls : List Setting) : (made calls).plan =
    ⟨(made calls).trials, (made calls).seed, (made calls).maxFailureRate,
      if calls.filterMap Setting.suite? = [] then Suite.all
      else (calls.filterMap Setting.suite?).eraseDups⟩ := by
  have hempty : (made calls).suites.isEmpty = true ↔ calls.filterMap Setting.suite? = [] := by
    rw [made, List.isEmpty_iff]
    cases calls.filterMap Setting.suite? with
    | nil => simp
    | cons suite suites => simp [List.eraseDups_cons]
  rw [plan]
  simp only [hempty]
  rfl

theorem nodup_plan_made (calls : List Setting) : (made calls).plan.suites.Nodup := by
  rw [plan_made]
  change (if _ then Suite.all else _ : List Suite).Nodup
  split
  · decide
  · exact nodup_eraseDups _

end Settings

/-- A run that passes has a report for each suite in each of the two precisions. -/
theorem Plan.size_reports {plan : Plan} {tries : Nat} {outcome : Logged (Array Report)}
    {reports : Array Report} (h : plan.run tries = .ok outcome) (hok : outcome.result = .ok reports) :
    reports.size = 2 * plan.suites.length := by
  obtain ⟨inner, hall, hinner⟩ := exists_runAll_of_run h
  rw [hok] at hinner
  obtain ⟨new, hnew, hlength⟩ := exists_reports_of_runAll hall hinner
  rw [List.nil_append] at hnew
  rw [← Array.length_toList, hnew, hlength, length_steps]

namespace Settings

/-- Settings made in a row are refused if and only if one of them is a rate that is not a number or
below zero (`VerificationBuilder`). Otherwise the plan has the last number of trials, the last seed
and the last rate that were set, and the suites in the order in which they were first asked for,
each once, or all of them if none was; and a run of it that passes has twice as many reports as
there are suites. Two settings of different kinds can be made in either order. -/
theorem setAll_plan (calls : List Setting) :
    (setAll {} calls = .error .badRate ↔ ∃ rate, Setting.maxFailureRate rate ∈ calls ∧
      (rate.isNumber = false ∨ rate < 0)) ∧
    ((∀ rate, Setting.maxFailureRate rate ∈ calls → ¬ (rate.isNumber = false ∨ rate < 0)) →
      ∃ s, setAll {} calls = .ok s ∧
        s.plan = ⟨(calls.filterMap Setting.trials?).getLastD 100000,
          (calls.filterMap Setting.seed?).getLastD defaultSeed,
          (calls.filterMap Setting.maxFailureRate?).getLastD (Binary.ofNat 1 / Binary.ofNat 100),
          if calls.filterMap Setting.suite? = [] then Suite.all
          else (calls.filterMap Setting.suite?).eraseDups⟩ ∧
        s.plan.suites.Nodup ∧
        ∀ tries outcome reports, s.plan.run tries = .ok outcome → outcome.result = .ok reports →
          reports.size = 2 * s.plan.suites.length) ∧
    ∀ before after a b, calls = before ++ a :: b :: after → a.kind ≠ b.kind →
      setAll {} (before ++ b :: a :: after) = setAll {} calls := by
  have hrefused : (∃ c ∈ calls, c.IsRefused) ↔ ∃ rate, Setting.maxFailureRate rate ∈ calls ∧
      (rate.isNumber = false ∨ rate < 0) := by
    constructor
    · rintro ⟨_, hc, rate, rfl, hrate⟩
      exact ⟨rate, hc, hrate⟩
    · rintro ⟨rate, hc, hrate⟩
      exact ⟨_, hc, rate, rfl, hrate⟩
  refine ⟨setAll_eq_error_iff.trans hrefused, fun haccepted => ?_, ?_⟩
  · have hmade : setAll {} calls = .ok (made calls) := by
      refine setAll_eq_made fun c hc hbad => ?_
      obtain ⟨rate, hrate, hbad⟩ := hrefused.1 ⟨c, hc, hbad⟩
      exact haccepted rate hrate hbad
    exact ⟨made calls, hmade, plan_made calls, nodup_plan_made calls,
      fun _ _ _ hrun hok => Plan.size_reports hrun hok⟩
  · rintro before after a b rfl hkind
    exact setAll_swap hkind before after

/-- Trials and a suite set twice, and a rate that is a negative zero. One trial of boxes passes in
both precisions. -/
theorem setAll_plan_twice : ∃ s outcome reports,
    setAll {} [.trials 5, .suite .boxLine, .maxFailureRate (Binary.signedZero true), .seed 1,
      .suite .boxLine, .trials 1] = .ok s ∧
    s.plan = ⟨1, 1, Binary.signedZero true, [.boxLine]⟩ ∧
    s.plan.run 1 = .ok outcome ∧ outcome.result = .ok reports ∧ reports.size = 2 ∧
    setAll {} [.trials 5, .suite .boxLine, .maxFailureRate (Binary.signedZero true), .seed 1,
      .trials 1, .suite .boxLine] = .ok s := by
  obtain ⟨-, haccepted, hswap⟩ := setAll_plan [.trials 5, .suite .boxLine,
    .maxFailureRate (Binary.signedZero true), .seed 1, .suite .boxLine, .trials 1]
  obtain ⟨s, hs, hplan, -, hreports⟩ := haccepted (by
    intro rate hrate
    simp only [List.mem_cons, List.not_mem_nil, or_false, reduceCtorEq, false_or,
      Setting.maxFailureRate.injEq] at hrate
    rw [hrate]
    decide)
  have hplan : s.plan = ⟨1, 1, Binary.signedZero true, [.boxLine]⟩ := hplan
  have hpassed : ((s.plan.run 1).toOption.bind fun outcome =>
      outcome.result.toOption.map Array.size) = some 2 := by
    rw [hplan]
    decide +kernel
  have hexchanged := hswap [.trials 5, .suite .boxLine,
    .maxFailureRate (Binary.signedZero true), .seed 1] [] (.suite .boxLine) (.trials 1) rfl
    (by decide)
  cases hrun : s.plan.run 1 with
  | error b =>
    rw [hrun] at hpassed
    cases hpassed
  | ok outcome =>
    rw [hrun] at hpassed
    cases hresult : outcome.result with
    | error failure => simp [hresult, Except.toOption] at hpassed
    | ok reports =>
      have hsize := hreports 1 outcome reports hrun hresult
      rw [hplan] at hsize
      exact ⟨s, outcome, reports, hs, hplan, hrun, hresult, hsize, hexchanged.trans hs⟩

end Settings

end HitTest
