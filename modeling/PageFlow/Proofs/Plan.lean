import PageFlow.Plan
import PageFlow.Proofs.Run.Report

namespace PageFlow

theorem Outcome.bind_eq_error {α β : Type} {x : Outcome α} {f : α → Outcome β} {e : ActionError} :
    x >>= f = .error e ↔ x = .error e ∨ ∃ a, x = .ok a ∧ f a = .error e := by
  constructor
  · intro h
    cases x with
    | error d => cases h; exact .inl rfl
    | ok a => exact .inr ⟨a, rfl, h⟩
  · rintro (rfl | ⟨a, rfl, h⟩)
    · rfl
    · exact h

theorem Outcome.eq_error_of_map {α β : Type} {x : Outcome α} {f : α → β} {e : ActionError}
    (h : x.map f = .error e) : x = .error e := by
  cases x with
  | error d => cases h; rfl
  | ok a => cases h

namespace PlannedStep

mutual

/-- How many steps are planned with a step: itself and those of its fallback list. -/
def count : PlannedStep → Nat
  | { fallback, .. } => countAll fallback + 1

def countAll : List PlannedStep → Nat
  | [] => 0
  | step :: rest => step.count + countAll rest

end

theorem count_eq (s : PlannedStep) : s.count = countAll s.fallback + 1 := by
  cases s
  rw [count]

@[simp] theorem countAll_nil : countAll [] = 0 := by
  rw [countAll]

@[simp] theorem countAll_cons (s : PlannedStep) (rest : List PlannedStep) :
    countAll (s :: rest) = s.count + countAll rest := by
  rw [countAll]

inductive Listed : List PlannedStep → PlannedStep → Prop
  | own {steps : List PlannedStep} {s : PlannedStep} (h : s ∈ steps) : Listed steps s
  | fallback {steps : List PlannedStep} {s t : PlannedStep} (h : s ∈ steps)
    (inner : Listed s.fallback t) : Listed steps t

theorem not_listed_nil (t : PlannedStep) : ¬ Listed [] t := by
  intro h
  cases h with
  | own h => cases h
  | fallback h => cases h

theorem listed_cons {s t : PlannedStep} {rest : List PlannedStep} (h : Listed (s :: rest) t) :
    t = s ∨ Listed s.fallback t ∨ Listed rest t := by
  cases h with
  | own h => exact (List.mem_cons.1 h).imp_right fun h => .inr (.own h)
  | fallback h inner =>
    rcases List.mem_cons.1 h with rfl | h
    · exact .inr (.inl inner)
    · exact .inr (.inr (.fallback h inner))

end PlannedStep

/-- A plan is nested so many levels below another. -/
inductive Plan.Nests : Nat → Plan → Plan → Prop
  | self (p : Plan) : Nests 0 p p
  | deeper {n : Nat} {p q r : Plan} {s : PlannedStep} (listed : PlannedStep.Listed p.steps s)
    (nested : s.nested = some r) (h : Nests n r q) : Nests (n + 1) p q

/-- A plan and those that are nested in it keep to the limits, where so many levels are left. -/
def Plan.Fits (maxSteps levels depth : Nat) (p : Plan) : Prop :=
  ∀ n q, Nests n p q →
    n ≤ levels ∧ q.depth = depth + n ∧ PlannedStep.countAll q.steps ≤ maxSteps

/-- Steps are planned within a limit and counted, and the plans nested in them satisfy `Q`. -/
structure Planned (maxSteps : Nat) (Q : Plan → Prop) (steps : List PlannedStep)
    (before after : Nat) : Prop where
  counted : after = before + PlannedStep.countAll steps
  few : after ≤ max maxSteps before
  nested : ∀ s, PlannedStep.Listed steps s → ∀ q, s.nested = some q → Q q

namespace Planned

variable {maxSteps : Nat} {Q : Plan → Prop} {s : PlannedStep} {rest : List PlannedStep}
  {before mid after : Nat}

theorem nil : Planned maxSteps Q [] before before where
  counted := by simp
  few := Nat.le_max_right _ _
  nested s hs := (PlannedStep.not_listed_nil s hs).elim

/-- A step is counted before its fallback list. -/
theorem cons (room : before < maxSteps) (own : ∀ q, s.nested = some q → Q q)
    (fallback : Planned maxSteps Q s.fallback (before + 1) mid)
    (others : Planned maxSteps Q rest mid after) : Planned maxSteps Q (s :: rest) before after where
  counted := by
    have hmid := fallback.counted
    have hafter := others.counted
    rw [PlannedStep.countAll_cons, s.count_eq]
    omega
  few := by
    have hmid := fallback.few
    have hafter := others.few
    omega
  nested t ht := by
    rcases PlannedStep.listed_cons ht with rfl | ht | ht
    · exact own
    · exact fallback.nested t ht
    · exact others.nested t ht

theorem fits {levels depth : Nat} {p : Plan}
    (h : Planned maxSteps (fun q => ∃ below, levels = below + 1 ∧
      q.Fits maxSteps below (depth + 1)) p.steps 0 after)
    (hdepth : p.depth = depth) : p.Fits maxSteps levels depth := by
  intro n q hq
  cases hq with
  | self =>
    have hcount := h.counted
    have hfew := h.few
    exact ⟨Nat.zero_le _, hdepth, by omega⟩
  | deeper listed nested hq =>
    obtain ⟨below, rfl, hfits⟩ := h.nested _ listed _ nested
    obtain ⟨hn, hd, hcount⟩ := hfits _ q hq
    exact ⟨Nat.succ_le_succ hn, by omega, hcount⟩

end Planned

def EnterPlan.Gives (enter : EnterPlan) (frame : Frame) (Q : Plan → Prop) : Prop :=
  ∀ (index : Nat) (name : String) (params : Json) (q : Plan),
    enter frame index name params = .ok q → Q q

namespace Step

variable {limits : Limits} {enter : EnterPlan} {frame : Frame} {Q : Plan → Prop} {index : Nat}

theorem planTarget_nested (h : enter.Gives frame Q) {args : Table Json}
    {planned after : PlannedStep} (hp : planned.nested = none)
    (ho : planTarget enter frame index args planned = .ok after) :
    after.fallback = planned.fallback ∧ ∀ q, after.nested = some q → Q q := by
  rw [planTarget] at ho
  split at ho
  · split at ho
    · next plan hplan =>
      cases ho
      exact ⟨rfl, fun q hq => h _ _ _ q (hplan.trans (congrArg _ (Option.some.inj hq)))⟩
    · split at ho
      · cases ho
      · cases ho
        exact ⟨rfl, by simp [hp]⟩
  · cases ho
    exact ⟨rfl, by simp [hp]⟩

theorem planArgs_nested (h : enter.Gives frame Q) {step : Step} {planned after : PlannedStep}
    (hp : planned.nested = none) (ho : step.planArgs enter frame index planned = .ok after) :
    after.fallback = planned.fallback ∧ ∀ q, after.nested = some q → Q q := by
  rw [planArgs] at ho
  split at ho
  · cases ho
    exact ⟨rfl, by simp [hp]⟩
  dsimp only at ho
  split at ho
  · obtain ⟨noted, hnoted, ho⟩ := Outcome.bind_eq_ok.1 ho
    cases ho
    obtain ⟨hfallback, hnested⟩ := planTarget_nested h hp hnoted
    exact ⟨hfallback, hnested⟩
  · cases ho
    exact ⟨rfl, by simp [hp]⟩

theorem planRun_ok (h : enter.Gives frame Q) {step : Step} {started after : Nat}
    {rescue : Nat → Outcome (List PlannedStep × Nat)} {blank planned : PlannedStep}
    (hn : blank.nested = none) (hf : blank.fallback = [])
    (ho : step.planRun enter frame index rescue started blank = .ok (planned, after)) :
    (∀ q, planned.nested = some q → Q q) ∧ (planned.fallback = [] ∧ after = started ∨
      step.onError = .fallback ∧ rescue started = .ok (planned.fallback, after)) := by
  rw [planRun] at ho
  obtain ⟨noted, hargs, ho⟩ := Outcome.bind_eq_ok.1 ho
  obtain ⟨hfallback, hnested⟩ := planArgs_nested h hn hargs
  split at ho
  · next policy =>
    obtain ⟨⟨fallback, mid⟩, hrescue, ho⟩ := Outcome.bind_eq_ok.1 ho
    cases ho
    exact ⟨hnested, .inr ⟨policy, hrescue⟩⟩
  · cases ho
    exact ⟨hnested, .inl ⟨hfallback.trans hf, rfl⟩⟩

theorem planWith_ok (h : enter.Gives frame Q) {step : Step} {started after : Nat}
    {rescue : Nat → Outcome (List PlannedStep × Nat)} {planned : PlannedStep}
    (ho : step.planWith limits enter frame index rescue started = .ok (planned, after)) :
    started < limits.maxSteps ∧ (∀ q, planned.nested = some q → Q q) ∧
      (planned.fallback = [] ∧ after = started + 1 ∨
        step.onError = .fallback ∧ rescue (started + 1) = .ok (planned.fallback, after)) := by
  rw [planWith] at ho
  split at ho
  · cases ho
  next hroom =>
  refine ⟨Nat.lt_of_not_le hroom, ?_⟩
  dsimp only at ho
  split at ho
  · exact planRun_ok h rfl rfl ho
  · cases ho
    exact ⟨nofun, .inl ⟨rfl, rfl⟩⟩
  split at ho
  · exact planRun_ok h rfl rfl ho
  · cases ho
    exact ⟨nofun, .inl ⟨rfl, rfl⟩⟩
  · cases ho

theorem plan_eq (step : Step) (started : Nat) :
    plan limits enter frame index step started =
      step.planWith limits enter frame index
        (planAll limits enter frame 0 step.fallback) started := by
  cases step
  rw [plan]

theorem planAll_cons_ok {step : Step} {rest : List Step} {started after : Nat}
    {planned : List PlannedStep}
    (h : planAll limits enter frame index (step :: rest) started = .ok (planned, after)) :
    ∃ first mid others, planned = first :: others ∧
      step.planWith limits enter frame index (planAll limits enter frame 0 step.fallback) started =
        .ok (first, mid) ∧
      planAll limits enter frame (index + 1) rest mid = .ok (others, after) := by
  rw [planAll] at h
  obtain ⟨⟨first, mid⟩, hfirst, h⟩ := Outcome.bind_eq_ok.1 h
  obtain ⟨⟨others, last⟩, hothers, h⟩ := Outcome.bind_eq_ok.1 h
  cases h
  rw [plan_eq] at hfirst
  exact ⟨first, mid, others, rfl, hfirst, hothers⟩

theorem planAll_planned (h : enter.Gives frame Q) (steps : List Step) :
    ∀ {index started after : Nat} {planned : List PlannedStep},
      planAll limits enter frame index steps started = .ok (planned, after) →
        Planned limits.maxSteps Q planned started after := by
  induction steps using listInduction with
  | nil =>
    intro index started after planned ho
    cases ho
    exact .nil
  | cons step rest ihFallback ihRest =>
    intro index started after planned ho
    obtain ⟨first, mid, others, rfl, hfirst, hothers⟩ := planAll_cons_ok ho
    obtain ⟨room, own, fallback⟩ := planWith_ok h hfirst
    refine .cons room own ?_ (ihRest hothers)
    rcases fallback with ⟨hnone, rfl⟩ | ⟨-, hrescue⟩
    · rw [hnone]
      exact .nil
    · exact ihFallback hrescue

end Step

namespace Action

variable {registry : Registry} {limits : Limits}

theorem planBody_fits {enter : EnterPlan} {frame : Frame} {levels : Nat}
    (h : enter.Gives frame fun q => ∃ below, levels = below + 1 ∧
      q.Fits limits.maxSteps below (frame.depth + 1)) {a : Action} {p : Plan}
    (ho : a.planBody limits enter frame = .ok p) : p.Fits limits.maxSteps levels frame.depth := by
  rw [planBody] at ho
  obtain ⟨⟨steps, after⟩, hsteps, ho⟩ := Outcome.bind_eq_ok.1 ho
  cases ho
  exact Planned.fits (Step.planAll_planned h a.steps hsteps) rfl

theorem enterPlan_fits (levels : Nat) (frame : Frame) :
    (enterPlan registry limits levels).Gives frame fun q =>
      ∃ below, levels = below + 1 ∧ q.Fits limits.maxSteps below (frame.depth + 1) := by
  induction levels generalizing frame with
  | zero =>
    intro index name params q hq
    cases hq
  | succ levels ih =>
    intro index name params q hq
    rw [enterPlan] at hq
    obtain ⟨⟨a, bound⟩, htarget, hq⟩ := Outcome.bind_eq_ok.1 hq
    exact ⟨levels, rfl, planBody_fits (ih (frame.child registry a bound)) hq⟩

/-- A plan of a run keeps to the limits, as deep as it goes. -/
theorem plan_fits {a : Action} {params env : Json} {p : Plan}
    (h : a.plan registry limits params env = .ok p) :
    p.Fits limits.maxSteps limits.maxDepth 0 := by
  rw [plan] at h
  obtain ⟨frame, hroot, h⟩ := Outcome.bind_eq_ok.1 h
  rw [← Frame.root_depth hroot]
  exact planBody_fits (enterPlan_fits limits.maxDepth frame) h

end Action

end PageFlow
