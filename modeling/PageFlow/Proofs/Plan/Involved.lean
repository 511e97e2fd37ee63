import Mathlib.Logic.Relation
import PageFlow.Proofs.Plan
import PageFlow.Proofs.Run.Course

namespace PageFlow

theorem Frame.vars_begin {frame : Frame} {p : Progress} (h : p.outputs = []) :
    frame.vars p.begin = frame.vars {} := by
  rw [vars, vars, Progress.begin, h]

/-- A step of an action in its frame runs another action, where no values are recorded. -/
inductive Settings.Leads (s : Settings) : Action × Frame → Action × Frame → Prop
  | run {a b : Action} {frame : Frame} {index : Nat} {step : Step} {args bound : Table Json}
    {name : String} (listed : a.steps[index]? = some step) (kind : step.kind = .run)
    (runs : step.Runs s.limits (frame.vars {}) args)
    (named : args.get? "action" = some (.string name))
    (target : frame.target s.registry index name ((args.get? "params").getD (.object [])) =
      .ok (b, bound)) : Leads s (a, frame) (b, frame.child s.registry b bound)

/-- The actions that are reached from an action in its frame, itself among them. -/
def Settings.Involves (s : Settings) : Action × Frame → Action × Frame → Prop :=
  Relation.ReflTransGen s.Leads

/-- What holds of all actions that are reached from one holds of those that it leads to. -/
theorem Settings.Involves.step {s : Settings} {P : Action × Frame → Prop} {x y : Action × Frame}
    (h : ∀ z, s.Involves x z → P z) (hxy : s.Leads x y) : ∀ z, s.Involves y z → P z :=
  fun z hz => h z (.head hxy hz)

namespace Step

/-- The plan of the action that a step names with its arguments, if there is one. -/
inductive Expands (step : Step) (enter : EnterPlan) (frame : Frame) (index : Nat)
    (args : Table Json) : Option Plan → Prop
  | other (kind : step.kind ≠ .run) : Expands step enter frame index args none
  | unnamed (kind : step.kind = .run) (unnamed : ∀ name, args.get? "action" ≠ some (.string name)) :
    Expands step enter frame index args none
  | refused {name : String} {e : ActionError} (kind : step.kind = .run)
    (named : args.get? "action" = some (.string name))
    (refused : enter frame index name ((args.get? "params").getD (.object [])) = .error e)
    (mild : ¬ e.isFatal) : Expands step enter frame index args none
  | nested {name : String} {plan : Plan} (kind : step.kind = .run)
    (named : args.get? "action" = some (.string name))
    (planned : enter frame index name ((args.get? "params").getD (.object [])) = .ok plan) :
    Expands step enter frame index args (some plan)

variable {limits : Limits} {enter : EnterPlan} {frame : Frame} {index : Nat} {step : Step}
  {args : Table Json}

theorem planTarget_ok {blank planned : PlannedStep} (kind : step.kind = .run)
    (hn : blank.nested = none) (ho : planTarget enter frame index args blank = .ok planned) :
    step.Expands enter frame index args planned.nested ∧ planned.index = blank.index ∧
      planned.kind = blank.kind ∧ planned.skip = blank.skip := by
  rw [planTarget] at ho
  split at ho
  · next name named =>
    split at ho
    · next plan hplan =>
      cases ho
      exact ⟨.nested kind named hplan, rfl, rfl, rfl⟩
    · next e he =>
      split at ho
      · cases ho
      · next mild =>
        cases ho
        exact ⟨hn ▸ .refused kind named he mild, rfl, rfl, rfl⟩
  · next unnamed =>
    cases ho
    exact ⟨hn ▸ .unnamed kind unnamed, rfl, rfl, rfl⟩

/-- A planned step that its condition lets run, with its arguments if they can be worked out. -/
structure Resolves (step : Step) (enter : EnterPlan) (frame : Frame) (index : Nat)
    (blank planned : PlannedStep) : Prop where
  at_index : planned.index = blank.index
  kind : planned.kind = blank.kind
  skip : planned.skip = blank.skip
  args : ∀ args, interpolateFields (frame.vars {}) step.args = .ok args →
    planned.args = some args ∧ step.Expands enter frame index args planned.nested

theorem planArgs_resolves {blank planned : PlannedStep} (hn : blank.nested = none)
    (ho : step.planArgs enter frame index blank = .ok planned) :
    step.Resolves enter frame index blank planned := by
  rw [planArgs] at ho
  split at ho
  · next e he =>
    cases ho
    exact ⟨rfl, rfl, rfl, by simp [he]⟩
  next args ha =>
  dsimp only at ho
  split at ho
  · next kind =>
    obtain ⟨targeted, htarget, ho⟩ := Outcome.bind_eq_ok.1 ho
    cases ho
    obtain ⟨hnested, hindex, hkind, hskip⟩ := planTarget_ok kind hn htarget
    refine ⟨hindex, hkind, hskip, fun given hgiven => ?_⟩
    cases ha.symm.trans hgiven
    exact ⟨rfl, hnested⟩
  · next kind =>
    cases ho
    refine ⟨rfl, rfl, rfl, fun given hgiven => ?_⟩
    cases ha.symm.trans hgiven
    exact ⟨rfl, hn ▸ .other kind⟩

theorem planRun_resolves {rescue : Nat → Outcome (List PlannedStep × Nat)} {started after : Nat}
    {blank planned : PlannedStep} (hn : blank.nested = none)
    (ho : step.planRun enter frame index rescue started blank = .ok (planned, after)) :
    step.Resolves enter frame index blank planned := by
  rw [planRun] at ho
  obtain ⟨noted, hargs, ho⟩ := Outcome.bind_eq_ok.1 ho
  have h := planArgs_resolves hn hargs
  split at ho
  · obtain ⟨⟨fallback, mid⟩, hrescue, ho⟩ := Outcome.bind_eq_ok.1 ho
    cases ho
    exact ⟨h.at_index, h.kind, h.skip, h.args⟩
  · cases ho
    exact h

theorem planTarget_error {blank : PlannedStep} {e : ActionError}
    (ho : planTarget enter frame index args blank = .error e) : e.isFatal ∧ ∃ name,
      args.get? "action" = some (.string name) ∧
        enter frame index name ((args.get? "params").getD (.object [])) = .error e := by
  rw [planTarget] at ho
  split at ho
  · next name named =>
    split at ho
    · cases ho
    · next refused =>
      split at ho
      · next hf =>
        cases ho
        exact ⟨hf, name, named, refused⟩
      · cases ho
  · cases ho

theorem planArgs_error {blank : PlannedStep} {e : ActionError}
    (ho : step.planArgs enter frame index blank = .error e) : e.isFatal ∧ step.kind = .run ∧
      ∀ args : Table Json, interpolateFields (frame.vars {}) step.args = .ok args → ∃ name,
        args.get? "action" = some (.string name) ∧
          enter frame index name ((args.get? "params").getD (.object [])) = .error e := by
  rw [planArgs] at ho
  split at ho
  · cases ho
  next args ha =>
  dsimp only at ho
  split at ho
  · next kind =>
    rcases Outcome.bind_eq_error.1 ho with ho | ⟨targeted, htarget, ho⟩
    · obtain ⟨hf, htarget⟩ := planTarget_error ho
      refine ⟨hf, kind, fun args' ha' => ?_⟩
      cases ha.symm.trans ha'
      exact htarget
    · cases ho
  · cases ho

theorem planRun_error {rescue : Nat → Outcome (List PlannedStep × Nat)} {started : Nat}
    {blank : PlannedStep} {e : ActionError}
    (ho : step.planRun enter frame index rescue started blank = .error e) :
    step.planArgs enter frame index blank = .error e ∨
      step.onError = .fallback ∧ rescue started = .error e := by
  rw [planRun] at ho
  rcases Outcome.bind_eq_error.1 ho with ho | ⟨noted, hargs, ho⟩
  · exact .inl ho
  split at ho
  · next policy =>
    rcases Outcome.bind_eq_error.1 ho with ho | ⟨fallback, -, ho⟩
    · exact .inr ⟨policy, ho⟩
    · cases ho
  · cases ho

inductive Plans (step : Step) (limits : Limits) (enter : EnterPlan) (frame : Frame) (index : Nat)
    (rescue : Nat → Outcome (List PlannedStep × Nat)) (started : Nat)
    (o : Outcome (PlannedStep × Nat)) : Prop
  | overLimit (full : limits.maxSteps ≤ started)
    (result : o = .error (frame.error (.maxStepsExceeded limits.maxSteps) (some index)))
  | skipped {planned : PlannedStep} (room : started < limits.maxSteps)
    (skips : step.Skips limits (frame.vars {})) (at_index : planned.index = index)
    (kind : planned.kind = step.kind) (skip : planned.skip.isSome) (nested : planned.nested = none)
    (result : o = .ok (planned, started + 1))
  | broken {e : ExprError} (room : started < limits.maxSteps)
    (judged : step.judge limits (frame.vars {}) = .broken e)
    (policy : limits.conditionErrors = .fail)
    (result : o = .error (frame.error (.expression e) (some index)))
  | runs {blank : PlannedStep} (room : started < limits.maxSteps)
    (passes : step.Passes limits (frame.vars {})) (at_index : blank.index = index)
    (kind : blank.kind = step.kind) (skip : blank.skip = none) (nested : blank.nested = none)
    (result : o = step.planRun enter frame index rescue (started + 1) blank)

variable {rescue : Nat → Outcome (List PlannedStep × Nat)} {started : Nat}

theorem planWith_plans (step : Step) : step.Plans limits enter frame index rescue started
    (step.planWith limits enter frame index rescue started) := by
  rw [planWith]
  split
  · next full => exact .overLimit full rfl
  next hroom =>
  have room := Nat.lt_of_not_le hroom
  dsimp only
  split
  · next hj => exact .runs room (.inl hj) rfl rfl rfl rfl rfl
  · next hj => exact .skipped room (.inl hj) rfl rfl rfl rfl rfl
  next e hj =>
  split
  · next hp => exact .runs room (.inr ⟨⟨e, hj⟩, hp⟩) rfl rfl rfl rfl rfl
  · next hp => exact .skipped room (.inr ⟨⟨e, hj⟩, hp⟩) rfl rfl rfl rfl rfl
  · next hp => exact .broken room hj hp rfl

theorem planWith_error {e : ActionError}
    (hrescue : ∀ started e, rescue started = .error e → e.isFatal)
    (ho : step.planWith limits enter frame index rescue started = .error e) : e.isFatal := by
  cases planWith_plans step with
  | overLimit full result =>
    cases ho.symm.trans result
    rfl
  | skipped room skips at_index kind skip nested result => cases ho.symm.trans result
  | broken room judged policy result =>
    cases ho.symm.trans result
    rfl
  | runs room passes at_index kind skip nested result =>
    rcases planRun_error (result.symm.trans ho) with ho | ⟨-, ho⟩
    · exact (planArgs_error ho).1
    · exact hrescue _ _ ho

theorem planAll_cons_error {rest : List Step} {e : ActionError}
    (ho : planAll limits enter frame index (step :: rest) started = .error e) :
    step.planWith limits enter frame index (planAll limits enter frame 0 step.fallback) started =
        .error e ∨
      ∃ first mid, step.planWith limits enter frame index
          (planAll limits enter frame 0 step.fallback) started = .ok (first, mid) ∧
        planAll limits enter frame (index + 1) rest mid = .error e := by
  rw [planAll, plan_eq] at ho
  rcases Outcome.bind_eq_error.1 ho with ho | ⟨⟨first, mid⟩, hfirst, ho⟩
  · exact .inl ho
  rcases Outcome.bind_eq_error.1 ho with ho | ⟨others, -, ho⟩
  · exact .inr ⟨first, mid, hfirst, ho⟩
  · cases ho

/-- A plan of steps fails only for what would end a run of their action. -/
theorem planAll_error (steps : List Step) : ∀ {index started : Nat} {e : ActionError},
    planAll limits enter frame index steps started = .error e → e.isFatal := by
  induction steps using listInduction with
  | nil =>
    intro index started e ho
    cases ho
  | cons step rest ihFallback ihRest =>
    intro index started e ho
    rcases planAll_cons_error ho with ho | ⟨first, mid, -, ho⟩
    · exact planWith_error (fun _ _ h => ihFallback h) ho
    · exact ihRest ho

structure Foretells (step : Step) (limits : Limits) (enter : EnterPlan) (frame : Frame)
    (index : Nat) (planned : PlannedStep) : Prop where
  at_index : planned.index = index
  kind : planned.kind = step.kind
  skips : step.Skips limits (frame.vars {}) → planned.skip.isSome ∧ planned.nested = none
  runs : ∀ args, step.Runs limits (frame.vars {}) args → planned.skip = none ∧
    planned.args = some args ∧ step.Expands enter frame index args planned.nested
  breaks : ∀ e, step.Breaks limits (frame.vars {}) e → planned.skip = none

theorem planWith_foretells {after : Nat} {planned : PlannedStep}
    (ho : step.planWith limits enter frame index rescue started = .ok (planned, after)) :
    step.Foretells limits enter frame index planned := by
  cases planWith_plans step with
  | overLimit full result => cases ho.symm.trans result
  | broken room judged policy result => cases ho.symm.trans result
  | skipped room skips at_index kind skip nested result =>
    cases ho.symm.trans result
    exact ⟨at_index, kind, fun _ => ⟨skip, nested⟩, fun _ h => (skips.not_passes h.1).elim,
      fun _ h => (skips.not_breaks h).elim⟩
  | runs room passes at_index kind skip nested result =>
    have h := planRun_resolves nested (result.symm.trans ho)
    have hskip := h.skip.trans skip
    exact ⟨h.at_index.trans at_index, h.kind.trans kind, fun hs => (hs.not_passes passes).elim,
      fun args hr => ⟨hskip, h.args args hr.2⟩, fun _ _ => hskip⟩

theorem planAll_getElem? (steps : List Step) : ∀ {index started after : Nat}
    {planned : List PlannedStep},
    planAll limits enter frame index steps started = .ok (planned, after) →
      ∀ j s, planned[j]? = some s → ∃ step, steps[j]? = some step ∧ s.index = index + j ∧
        s.kind = step.kind := by
  induction steps with
  | nil =>
    intro index started after planned ho j s hs
    cases ho
    cases hs
  | cons step rest ih =>
    intro index started after planned ho j s hs
    obtain ⟨first, mid, others, rfl, hfirst, hothers⟩ := planAll_cons_ok ho
    cases j with
    | zero =>
      cases hs
      have h := planWith_foretells hfirst
      exact ⟨step, rfl, h.at_index, h.kind⟩
    | succ j =>
      obtain ⟨t, ht, hindex, hkind⟩ := ih hothers j s hs
      exact ⟨t, ht, by omega, hkind⟩

end Step

theorem Task.ofArgs_named {args : Table Json} {kind : StepKind} {selectors : Table Value}
    {timeout : Nat} {name text : String} {params : Json}
    (h : Task.ofArgs args kind selectors timeout = .ok (.run name params))
    (named : args.get? "action" = some (.string text)) :
    name = text ∧ params = (args.get? "params").getD (.object []) := by
  rw [Task.ofArgs] at h
  split at h
  · next task _ => cases task <;> cases h
  · rw [textArg, named] at h
    cases h
    exact ⟨rfl, rfl⟩

theorem Task.ofArgs_page {args : Table Json} {kind : StepKind} {selectors : Table Value}
    {timeout : Nat} {task : PageTask}
    (h : Task.ofArgs args kind selectors timeout = .ok (.page task)) : kind ≠ .run := by
  rintro rfl
  change (textArg args .run "action").map _ = _ at h
  cases hname : textArg args .run "action" with
  | error fault =>
    rw [hname] at h
    cases h
  | ok name =>
    rw [hname] at h
    cases h

/-- The plans of the actions that steps name, so many levels above the limit on nesting. -/
abbrev Settings.enterPlan (s : Settings) (levels : Nat) : EnterPlan :=
  Action.enterPlan s.registry s.limits levels

namespace Action

variable {settings : Settings} {enter : EnterPlan} {frame : Frame} {a : Action}

theorem planBody_ok {limits : Limits} {p : Plan} (h : a.planBody limits enter frame = .ok p) :
    ∃ after, Step.planAll limits enter frame 0 a.steps 0 = .ok (p.steps, after) := by
  rw [planBody] at h
  obtain ⟨⟨steps, after⟩, hsteps, h⟩ := Outcome.bind_eq_ok.1 h
  cases h
  exact ⟨after, hsteps⟩

theorem planBody_error {limits : Limits} {e : ActionError}
    (h : a.planBody limits enter frame = .error e) :
    Step.planAll limits enter frame 0 a.steps 0 = .error e := by
  rw [planBody] at h
  rcases Outcome.bind_eq_error.1 h with h | ⟨_, -, h⟩
  · exact h
  · cases h

theorem enterPlan_target {index : Nat} {name : String} {params : Json} {bound : Table Json}
    (levels : Nat) (target : frame.target settings.registry index name params = .ok (a, bound)) :
    settings.enterPlan (levels + 1) frame index name params =
      a.planBody settings.limits (settings.enterPlan levels)
        (frame.child settings.registry a bound) := by
  rw [Settings.enterPlan, enterPlan]
  dsimp only
  rw [target]
  rfl

end Action

end PageFlow
