import Mathlib.Data.List.Basic
import PageFlow.Page.Scripted
import PageFlow.Proofs.Plan.Involved
import PageFlow.Proofs.Routine.Composition

namespace PageFlow

/-- The parameters that the arguments of a `run` step give. -/
abbrev Step.given (args : Table Json) : Json :=
  (args.get? "params").getD (.object [])

/-- The steps of a list with their indexes, and those of the fallback lists that are planned. -/
inductive Step.Lists : List Step → Nat → Step → Prop
  | own {steps : List Step} {index : Nat} {step : Step} (h : steps[index]? = some step) :
    Lists steps index step
  | fallback {steps : List Step} {place index : Nat} {step inner : Step}
    (h : steps[place]? = some step) (policy : step.onError = .fallback)
    (listed : Lists step.fallback index inner) : Lists steps index inner

namespace Settings

/-- A step of an action in its frame, maybe one of a fallback list, is planned to run another. -/
inductive Extends (s : Settings) : Action × Frame → Action × Frame → Prop
  | run {a b : Action} {frame : Frame} {index : Nat} {step : Step} {args bound : Table Json}
    {name : String} (listed : Step.Lists a.steps index step) (kind : step.kind = .run)
    (runs : step.Runs s.limits (frame.vars {}) args)
    (named : args.get? "action" = some (.string name))
    (target : frame.target s.registry index name (Step.given args) = .ok (b, bound)) :
    Extends s (a, frame) (b, frame.child s.registry b bound)

/-- The actions that are planned for one in its frame, at any depth, itself among them. -/
def Reaches (s : Settings) : Action × Frame → Action × Frame → Prop :=
  Relation.ReflTransGen s.Extends

/-- Why the action that a step names is not entered, where so many levels are left. -/
inductive Refuses (s : Settings) (frame : Frame) (index : Nat) (name : String) (params : Json) :
    Nat → ActionError → Prop
  | depth : Refuses s frame index name params 0
      (frame.error (.maxDepthExceeded s.limits.maxDepth) (some index))
  | lookup {levels : Nat} (missing : s.registry.target? frame.space name = none) :
    Refuses s frame index name params (levels + 1) (frame.error (.actionNotFound name) (some index))
  | binding {levels : Nat} {a : Action} {fault : ParamFault}
    (found : s.registry.target? frame.space name = some a)
    (unbound : a.bindParams params = .error fault) :
    Refuses s frame index name params (levels + 1)
      ((ActionError.raised (.validation fault.message) a.fullName none).failRun frame.action index)

inductive Raises (s : Settings) : Action × Frame → ActionError → Prop
  | condition {a : Action} {frame : Frame} {index : Nat} {step : Step} {e : ExprError}
    (listed : Step.Lists a.steps index step)
    (judged : step.judge s.limits (frame.vars {}) = .broken e)
    (policy : s.limits.conditionErrors = .fail) :
    Raises s (a, frame) (frame.error (.expression e) (some index))
  | escaping {a : Action} {frame : Frame} {index : Nat} {step : Step} {fault : ActionFault}
    (listed : Step.Lists a.steps index step) (escapes : fault.escapes) :
    Raises s (a, frame) (frame.error fault (some index))

inductive Fails (s : Settings) (frame : Frame) (index : Nat) (name : String) (params : Json) :
    Nat → ActionError → Prop
  | refused {levels : Nat} {e : ActionError} (h : s.Refuses frame index name params levels e) :
    Fails s frame index name params levels e
  | inside {levels : Nat} {a : Action} {bound : Table Json} {y : Action × Frame} {e : ActionError}
    (target : frame.target s.registry index name params = .ok (a, bound))
    (reaches : s.Reaches (a, frame.child s.registry a bound) y) (raised : s.Raises y e)
    (fatal : e.isFatal) : Fails s frame index name params (levels + 1) e

end Settings

namespace Step

inductive Blocks (limits : Limits) (enter : EnterPlan) (frame : Frame) (steps : List Step) :
    ActionError → Prop
  | condition {index : Nat} {step : Step} {e : ExprError} (listed : Lists steps index step)
    (judged : step.judge limits (frame.vars {}) = .broken e)
    (policy : limits.conditionErrors = .fail) :
    Blocks limits enter frame steps (frame.error (.expression e) (some index))
  | crowded {index : Nat} {step : Step} (listed : Lists steps index step) :
    Blocks limits enter frame steps
      (frame.error (.maxStepsExceeded limits.maxSteps) (some index))
  | target {index : Nat} {step : Step} {args : Table Json} {name : String} {e : ActionError}
    (listed : Lists steps index step) (kind : step.kind = .run)
    (runs : step.Runs limits (frame.vars {}) args)
    (named : args.get? "action" = some (.string name))
    (refused : enter frame index name (given args) = .error e)
    (fatal : e.isFatal) : Blocks limits enter frame steps e

variable {limits : Limits} {enter : EnterPlan} {frame : Frame} {steps : List Step} {index : Nat}
  {step : Step} {e : ActionError}

theorem Blocks.fallback (h : steps[index]? = some step) (policy : step.onError = .fallback)
    (blocks : Blocks limits enter frame step.fallback e) : Blocks limits enter frame steps e := by
  cases blocks with
  | condition listed judged fail => exact .condition (.fallback h policy listed) judged fail
  | crowded listed => exact .crowded (.fallback h policy listed)
  | target listed kind runs named refused fatal =>
    exact .target (.fallback h policy listed) kind runs named refused fatal

theorem planWith_blocks {rescue : Nat → Outcome (List PlannedStep × Nat)} {started : Nat}
    (h : steps[index]? = some step)
    (hrescue : ∀ started e, rescue started = .error e →
      Blocks limits enter frame step.fallback e)
    (ho : step.planWith limits enter frame index rescue started = .error e) :
    Blocks limits enter frame steps e := by
  cases planWith_plans step with
  | overLimit full result =>
    cases ho.symm.trans result
    exact .crowded (.own h)
  | skipped room skips at_index kind skip nested result => cases ho.symm.trans result
  | broken room judged policy result =>
    cases ho.symm.trans result
    exact .condition (.own h) judged policy
  | runs room passes at_index kind skip nested result =>
    rcases planRun_error (result.symm.trans ho) with ho | ⟨policy, ho⟩
    · obtain ⟨fatal, hrun, htarget⟩ := planArgs_error ho
      cases ha : interpolateFields (frame.vars {}) step.args with
      | error x =>
        rw [planArgs, ha] at ho
        cases ho
      | ok args =>
        obtain ⟨name, named, refused⟩ := htarget args ha
        exact .target (.own h) hrun ⟨passes, ha⟩ named refused fatal
    · exact (hrescue _ _ ho).fallback h policy

theorem planAll_blocks (rest : List Step) : ∀ {steps : List Step} {index started : Nat}
    {e : ActionError}, steps.drop index = rest →
      planAll limits enter frame index rest started = .error e →
        Blocks limits enter frame steps e := by
  induction rest using listInduction with
  | nil =>
    intro steps index started e _ ho
    cases ho
  | cons step rest ihFallback ihRest =>
    intro steps index started e hdrop ho
    obtain ⟨hstep, hrest⟩ := of_drop_eq_cons hdrop
    rcases planAll_cons_error ho with ho | ⟨first, mid, -, ho⟩
    · exact planWith_blocks hstep (fun _ _ hf => ihFallback rfl hf) ho
    · exact ihRest hrest ho

end Step

namespace Settings

variable {s : Settings} {frame : Frame} {index : Nat} {name : String} {params : Json}
  {e : ActionError}

theorem refuses_iff (levels : Nat) : s.Refuses frame index name params (levels + 1) e ↔
    frame.target s.registry index name params = .error e := by
  rw [Frame.target]
  constructor
  · intro h
    cases h with
    | lookup missing => rw [missing]
    | binding found unbound => simp only [found, unbound]
  · intro h
    split at h
    · next missing =>
      cases h
      exact .lookup missing
    next a found =>
    split at h
    · cases h
    · next fault unbound =>
      cases h
      exact .binding found unbound

/-- An action that is not entered fails the step alike in a plan and in a run. -/
theorem Refuses.alike {levels : Nat} (h : s.Refuses frame index name params levels e) :
    s.enterPlan levels frame index name params = .error e ∧
      Action.enter s levels frame index name params = Routine.raise e := by
  cases levels with
  | zero =>
    cases h
    exact ⟨rfl, rfl⟩
  | succ levels =>
    have htarget := (refuses_iff levels).1 h
    rw [Settings.enterPlan, Action.enterPlan, Action.enter]
    dsimp only
    rw [htarget]
    exact ⟨rfl, rfl⟩

/-- Only what ends the run refuses an action for good. -/
theorem Refuses.escapes {levels : Nat} (h : s.Refuses frame index name params levels e)
    (fatal : e.isFatal) :
    ∃ fault : ActionFault, fault.escapes ∧ e = frame.error fault (some index) := by
  cases h with
  | depth => exact ⟨_, rfl, rfl⟩
  | lookup missing => exact ⟨_, rfl, rfl⟩
  | binding found unbound => cases fatal

/-- An action is not planned for what is raised at a step of it, or of one that it reaches. -/
theorem raises_of_planBody {a : Action} {levels : Nat}
    (hfails : ∀ index name params e, s.enterPlan levels frame index name params = .error e →
      s.Fails frame index name params levels e)
    (h : a.planBody s.limits (s.enterPlan levels) frame = .error e) :
    ∃ y, s.Reaches (a, frame) y ∧ s.Raises y e := by
  have hblocks := Step.planAll_blocks a.steps rfl (Action.planBody_error h)
  cases hblocks with
  | condition listed judged policy => exact ⟨_, .refl, .condition listed judged policy⟩
  | crowded listed => exact ⟨_, .refl, .escaping listed rfl⟩
  | target listed kind runs named refused fatal =>
    cases hfails _ _ _ _ refused with
    | refused hrefuses =>
      obtain ⟨fault, escapes, rfl⟩ := hrefuses.escapes fatal
      exact ⟨_, .refl, .escaping listed escapes⟩
    | inside target reaches raised =>
      exact ⟨_, .head (.run listed kind runs named target) reaches, raised⟩

theorem fails_of_enterPlan (levels : Nat) : ∀ {frame : Frame} {index : Nat} {name : String}
    {params : Json} {e : ActionError}, s.enterPlan levels frame index name params = .error e →
      s.Fails frame index name params levels e := by
  induction levels with
  | zero =>
    intro frame index name params e h
    cases h
    exact .refused .depth
  | succ levels ih =>
    intro frame index name params e h
    cases htarget : frame.target s.registry index name params with
    | error refusal =>
      have hrefuses := (refuses_iff levels).2 htarget
      cases hrefuses.alike.1.symm.trans h
      exact .refused hrefuses
    | ok found =>
      obtain ⟨a, bound⟩ := found
      rw [Action.enterPlan_target levels htarget] at h
      obtain ⟨y, reaches, raised⟩ := raises_of_planBody (fun _ _ _ _ => ih) h
      exact .inside htarget reaches raised (Step.planAll_error a.steps (Action.planBody_error h))

end Settings

namespace Step

variable {s : Settings} {step : Step} {frame : Frame} {index levels started : Nat}
  {args : Table Json} {name : String} {e : ActionError}

/-- An attempt at a `run` step enters the action that its arguments name. -/
theorem dispatch_named (kind : step.kind = .run)
    (named : args.get? "action" = some (.string name)) (enter : Enter) (timeout : Nat) :
    step.dispatch enter frame index args timeout = enter frame index name (given args) := by
  have htask : Task.ofArgs args step.kind frame.selectors timeout =
      .ok (.run name (given args)) := by
    rw [kind]
    change (textArg args .run "action").map _ = _
    rw [textArg, named]
    rfl
  rw [dispatch, htask]

variable {limits : Limits} {enter : EnterPlan}

theorem planArgs_refused {blank : PlannedStep} (kind : step.kind = .run)
    (ha : interpolateFields (frame.vars {}) step.args = .ok args)
    (named : args.get? "action" = some (.string name))
    (refused : enter frame index name (given args) = .error e) :
    step.planArgs enter frame index blank = if e.isFatal then .error e
      else .ok { blank with issue := some (.target e), args := some args } := by
  rw [planArgs, ha]
  dsimp only
  rw [if_pos kind, planTarget, named]
  dsimp only
  rw [refused]
  dsimp only
  split <;> rfl

/-- The plan of a step notes a failure of its target, and goes on with its fallback list. -/
structure Notes (step : Step) (args : Table Json) (e : ActionError)
    (rescue : Nat → Outcome (List PlannedStep × Nat)) (started : Nat) (planned : PlannedStep)
    (o : Outcome (PlannedStep × Nat)) : Prop where
  issue : planned.issue = some (.target e)
  args : planned.args = some args
  skip : planned.skip = none
  nested : planned.nested = none
  result : o = if step.onError = .fallback then do
      let (fallback, started) ← rescue (started + 1)
      return ({ planned with fallback }, started)
    else .ok (planned, started + 1)

theorem planWith_refused (rescue : Nat → Outcome (List PlannedStep × Nat))
    (kind : step.kind = .run) (runs : step.Runs limits (frame.vars {}) args)
    (named : args.get? "action" = some (.string name))
    (refused : enter frame index name (given args) = .error e) (room : started < limits.maxSteps) :
    if e.isFatal then step.planWith limits enter frame index rescue started = .error e
    else ∃ planned, step.Notes args e rescue started planned
      (step.planWith limits enter frame index rescue started) := by
  have hplans : step.Plans limits enter frame index rescue started
      (step.planWith limits enter frame index rescue started) := planWith_plans step
  cases hplans with
  | overLimit full result => exact absurd room (Nat.not_lt_of_le full)
  | skipped _ skips => exact absurd runs.1 skips.not_passes
  | broken _ judged policy result =>
    rcases runs.1 with holds | ⟨-, proceed⟩
    · cases judged.symm.trans holds
    · cases policy.symm.trans proceed
  | @runs blank _ passes at_index _ skip nested result =>
    rw [result, planRun, planArgs_refused kind runs.2 named refused]
    split
    · rfl
    · exact ⟨{ blank with issue := some (.target e), args := some args }, rfl, rfl, skip, nested,
        rfl⟩

end Step

namespace Settings

/--
A `run` step with its arguments, so many levels above the limit on nesting: what a failure of the
action that it names comes to in a plan, and what running makes of it.
-/
structure Compares (s : Settings) (levels : Nat) (frame : Frame) (index : Nat) (step : Step)
    (args : Table Json) (name : String) : Prop where
  /-- The action is not entered. -/
  refused : ∀ e, s.Refuses frame index name (Step.given args) levels e →
    s.enterPlan levels frame index name (Step.given args) = .error e ∧
      ∀ timeout, step.dispatch (Action.enter s levels) frame index args timeout = Routine.raise e
  /-- The action is entered, and stops at a condition of its own. -/
  stopped : ∀ below a bound x i, levels = below + 1 →
    frame.target s.registry index name (Step.given args) = .ok (a, bound) →
      let child := frame.child s.registry a bound
      let e := child.error (.expression x) (some i)
      let handed := e.failRun frame.action index
      (a.planBody s.limits (s.enterPlan below) child = .error e →
        s.enterPlan levels frame index name (Step.given args) = .error e) ∧
      (∀ (σ : Type) (page : Page σ) (signals : Signals) (m m' : Moment σ) (timeout : Nat),
        (a.body s (Action.enter s below) child).run page signals m = (.ok (.error e), m') →
          (step.dispatch (Action.enter s levels) frame index args timeout).run page signals m =
            (.ok (.error handed), m')) ∧
      e.isFatal ∧ handed = .stepFailed e frame.action index ∧ ¬ handed.isFatal
  /-- A run would let the step handle the failure; the plan notes it. -/
  noted : ∀ e, s.enterPlan levels frame index name (Step.given args) = .error e → ¬ e.isFatal →
    (∀ timeout, step.dispatch (Action.enter s levels) frame index args timeout =
      Routine.raise e) ∧
    ∀ rescue started, started < s.limits.maxSteps → ∃ planned, step.Notes args e rescue started
      planned (step.planWith s.limits (s.enterPlan levels) frame index rescue started)
  /-- The failure is one of the whole plan. -/
  fatal : ∀ e, s.enterPlan levels frame index name (Step.given args) = .error e → e.isFatal →
    ∀ rescue started, started < s.limits.maxSteps →
      step.planWith s.limits (s.enterPlan levels) frame index rescue started = .error e

variable {s : Settings} {levels : Nat} {frame : Frame} {index : Nat} {step : Step}
  {args : Table Json} {name : String}

theorem compares (kind : step.kind = .run) (runs : step.Runs s.limits (frame.vars {}) args)
    (named : args.get? "action" = some (.string name)) :
    s.Compares levels frame index step args name where
  refused e h := by
    obtain ⟨hplan, henter⟩ := h.alike
    exact ⟨hplan, fun timeout => (Step.dispatch_named kind named _ timeout).trans henter⟩
  stopped := by
    rintro below a bound x i rfl target
    dsimp only
    refine ⟨?_, ?_, rfl, rfl, Bool.false_ne_true⟩
    · intro hplan
      exact (Action.enterPlan_target below target).trans hplan
    · intro σ page signals m m' timeout hbody
      rw [Step.dispatch_named kind named, Action.enter]
      dsimp only
      rw [target]
      dsimp only
      rw [Routine.run_bind, hbody]
      rfl
  noted e h mild := by
    constructor
    · intro timeout
      cases fails_of_enterPlan levels h with
      | refused hrefuses =>
        exact (Step.dispatch_named kind named _ timeout).trans hrefuses.alike.2
      | inside target reaches raised fatal => exact absurd fatal mild
    · intro rescue started room
      have hnoted := Step.planWith_refused rescue kind runs named h room
      rwa [if_neg mild] at hnoted
  fatal e h hfatal rescue started room := by
    have hfailed := Step.planWith_refused rescue kind runs named h room
    rwa [if_pos hfatal] at hfailed

end Settings

namespace Action

/--
What a plan makes of an action that a `run` step names. An action that is not entered, for the limit
on nesting, for its name or for its parameters, fails the step as it does in a run. One that stops
at a condition of its own fails the whole plan, though a run would hand the step a failure that it
can handle. So the plan of an action fails only for the parameters of the action, for conditions of
it or of one that it reaches, or for what ends a run at any depth.
-/
theorem plan_targets (s : Settings) :
    (∀ (levels : Nat) (frame : Frame) (index : Nat) (step : Step) (args : Table Json)
      (name : String), step.kind = .run → step.Runs s.limits (frame.vars {}) args →
        args.get? "action" = some (.string name) → s.Compares levels frame index step args name) ∧
    ∀ (a : Action) (params env : Json) (e : ActionError),
      a.plan s.registry s.limits params env = .error e →
        Frame.root s.registry a params env = .error e ∨
          ∃ frame y, Frame.root s.registry a params env = .ok frame ∧ s.Reaches (a, frame) y ∧
            s.Raises y e := by
  constructor
  · intro levels frame index step args name kind runs named
    exact Settings.compares kind runs named
  · intro a params env e h
    rw [plan] at h
    rcases Outcome.bind_eq_error.1 h with root | ⟨frame, root, h⟩
    · exact .inl root
    · obtain ⟨y, reaches, raised⟩ := Settings.raises_of_planBody
        (fun _ _ _ _ => Settings.fails_of_enterPlan s.limits.maxDepth) h
      exact .inr ⟨frame, y, root, reaches, raised⟩

end Action

def unreadable : Action where
  name := "inner"
  steps := [{ kind := .visit, args := [("url", .string "/a")], condition := some "1 <" }]

def errand : Action where
  name := "outer"
  steps := [{ kind := .run, args := [("action", .string "inner")], onError := .ignore }]

def strict : Settings where
  registry := .ofActions [errand, unreadable]
  limits := { conditionErrors := .fail }

def unread : ActionError :=
  .raised (.expression { fault := .unexpectedEnd, offset := 3, source := "1 <" }) "inner" (some 0)

theorem plan_errand :
    errand.plan strict.registry strict.limits .null .null = .error unread := by
  apply Outcome.eq_error_of_map (f := fun _ => ())
  decide +kernel

/--
The condition of an action that a step runs: the plan fails with it, though running the step hands
it a failure that it ignores.
-/
theorem plan_refuses_errand :
    let run := (execute strict Script.page {} {} errand .null .null).1
    errand.plan strict.registry strict.limits .null .null = .error unread ∧ ¬ unread.escapes ∧
      unread.action ≠ errand.fullName ∧ run.result.isOk ∧
        run.trace.map (·.outcome.error?) = [some (.stepFailed unread errand.fullName 0)] := by
  intro run
  refine ⟨plan_errand, ?_, ?_, ?_, ?_⟩
  · decide +kernel
  · decide +kernel
  · decide +kernel
  · decide +kernel

/-- The plan of the errand fails for the condition in the action that its step names. -/
theorem plan_targets_errand :
    let frame := Frame.ofAction strict.registry errand 0 [] []
    (∀ step, errand.steps[0]? = some step →
      strict.Compares 10 frame 0 step [("action", .string "inner")] "inner") ∧
      ∃ y, strict.Reaches (errand, frame) y ∧ strict.Raises y unread := by
  intro frame
  obtain ⟨hsteps, hplans⟩ := Action.plan_targets strict
  constructor
  · intro step hstep
    cases hstep
    exact hsteps 10 frame 0 _ _ _ rfl ⟨.inl rfl, rfl⟩ rfl
  · have hroot : Frame.root strict.registry errand .null .null = .ok frame := rfl
    rcases hplans errand .null .null unread plan_errand with root | ⟨f, y, root, reaches, raised⟩
    · cases root.symm.trans hroot
    · cases root.symm.trans hroot
      exact ⟨y, reaches, raised⟩

end PageFlow
