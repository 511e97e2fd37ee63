import PageFlow.Page.Scripted
import PageFlow.Proofs.Routine.Agreement
import PageFlow.Proofs.Run.Follow
import PageFlow.Proofs.Run.Propagation

namespace PageFlow

def Settings.capped (s : Settings) (depth steps : Nat) : Settings :=
  { s with limits := { s.limits with maxDepth := depth, maxSteps := steps } }

inductive Limits.Exceeded (limits : Limits) : ActionError → Prop
  | depth (action : String) (step : Option Nat) :
    Exceeded limits (.raised (.maxDepthExceeded limits.maxDepth) action step)
  | steps (action : String) (step : Option Nat) :
    Exceeded limits (.raised (.maxStepsExceeded limits.maxSteps) action step)

theorem Limits.Exceeded.endsRun {limits : Limits} {e : ActionError} (h : limits.Exceeded e) :
    e.EndsRun := by
  cases h with
  | depth action step => exact .raised (.maxDepthExceeded _) action step
  | steps action step => exact .raised (.maxStepsExceeded _) action step

/-- What is given up for a limit. -/
def Limits.Stops {α : Type} (limits : Limits) (r : Outcome α) : Prop :=
  ∃ e, r = .error e ∧ limits.Exceeded e

open Routine (GivesUp UpTo)

section

variable {settings : Settings} {depth steps : Nat} {small large : Enter}

/-- What `run` steps do under tighter limits agrees with what they do, until a limit is exceeded. -/
def Enter.UpTo (limits : Limits) (small large : Enter) : Prop :=
  ∀ frame index name params,
    Routine.UpTo limits.Stops (small frame index name params) (large frame index name params)

namespace Step

theorem raise_givesUp {α : Type} {limits : Limits} {e : ActionError} (h : limits.Exceeded e) :
    (Routine.raise e : Routine (Outcome α)).GivesUp limits.Stops :=
  ⟨e, rfl, h⟩

theorem record_givesUp {α : Type} {limits : Limits} {e : ActionError} (h : limits.Exceeded e)
    (entry : Entry) : (record entry (.error e : Outcome α)).GivesUp limits.Stops :=
  ⟨e, rfl, h⟩

theorem dispatch_upTo {limits : Limits} (h : small.UpTo limits large) (step : Step) (frame : Frame)
    (index : Nat) (args : Table Json) (timeout : Nat) :
    UpTo limits.Stops (step.dispatch small frame index args timeout)
      (step.dispatch large frame index args timeout) := by
  rw [dispatch, dispatch]
  cases Task.ofArgs args step.kind frame.selectors timeout with
  | error fault => exact .refl _
  | ok task =>
    cases task with
    | run name params => exact h frame index name params
    | page task => exact .refl _

theorem bounded_upTo (h : small.UpTo (settings.capped depth steps).limits large) (step : Step)
    (frame : Frame) (index : Nat) (args : Table Json) :
    UpTo (settings.capped depth steps).limits.Stops
      (step.bounded (settings.capped depth steps).limits small frame index args)
      (step.bounded settings.limits large frame index args) := by
  have hwork := dispatch_upTo h step frame index args
    (step.timeout.getD settings.limits.stepTimeout)
  have hbound : step.bound? (settings.capped depth steps).limits = step.bound? settings.limits :=
    rfl
  rw [bounded, bounded, hbound]
  cases step.bound? settings.limits with
  | none => exact hwork
  | some ms =>
    apply (hwork.within ms).bind
    · rintro _ ⟨result, rfl, hresult⟩
      exact hresult
    · intro result
      exact .refl _

theorem attempts_upTo {limits : Limits} {once once' : Routine (Outcome Json)}
    (h : UpTo limits.Stops once once') (policy : Backoff) (index : Nat)
    (halt : Interrupt → ActionError) (left count : Nat) :
    UpTo (fun ended => limits.Stops ended.result) (attempts policy index once halt left count)
      (attempts policy index once' halt left count) := by
  have hfatal : ∀ r : Outcome Json × List Entry, limits.Stops r.1 → ∃ e, r.1 = .error e ∧
      e.isFatal ∧ limits.Exceeded e := by
    rintro r ⟨e, he, hlimit⟩
    exact ⟨e, he, hlimit.endsRun.isFatal, hlimit⟩
  induction left generalizing count with
  | zero =>
    rw [attempts, attempts]
    apply UpTo.ask
    intro _
    apply (h.collect (.attempt index count) []).bind
    · rintro ⟨r, nested⟩ hr
      obtain ⟨e, rfl, hf, hlimit⟩ := hfatal _ hr
      simp only [hf, ↓reduceIte]
      exact ⟨e, rfl, hlimit⟩
    · intro r
      exact .refl _
  | succ left ih =>
    rw [attempts, attempts]
    apply UpTo.ask
    intro _
    apply (h.collect (.attempt index count) []).bind
    · rintro ⟨r, nested⟩ hr
      obtain ⟨e, rfl, hf, hlimit⟩ := hfatal _ hr
      simp only [hf, ↓reduceIte]
      exact ⟨e, rfl, hlimit⟩
    · rintro ⟨r, nested⟩
      cases r with
      | ok value => exact .refl _
      | error e =>
        dsimp only
        split
        · exact .refl _
        apply UpTo.ask
        intro _
        apply UpTo.ask
        intro status
        cases status with
        | none => exact ih (count + 1)
        | some cause => exact .refl _

variable (step : Step) (frame : Frame) (index : Nat)
  {rescue rescue' : Progress → Routine (Outcome (Progress × Json))}

theorem recover_upTo {limits : Limits} (h : ∀ progress, UpTo limits.Stops (rescue progress)
    (rescue' progress)) (entry : StepOutcome → List Entry → Entry) (e : ActionError)
    (progress : Progress) :
    UpTo limits.Stops (step.recover frame index entry rescue e progress)
      (step.recover frame index entry rescue' e progress) := by
  rw [recover, recover]
  split
  · exact .refl _
  split
  · exact .refl _
  · exact .refl _
  apply ((h progress).collect (.fallback index) []).bind
  · rintro ⟨r, nested⟩ ⟨fault, hr, hlimit⟩
    cases hr
    dsimp only
    rw [hlimit.endsRun.failStep]
    exact record_givesUp hlimit _
  · intro r
    exact .refl _

theorem execute_upTo (henter : small.UpTo (settings.capped depth steps).limits large)
    (h : ∀ progress, UpTo (settings.capped depth steps).limits.Stops (rescue progress)
      (rescue' progress)) (progress : Progress) :
    UpTo (settings.capped depth steps).limits.Stops
      (step.execute (settings.capped depth steps) small frame index rescue progress)
      (step.execute settings large frame index rescue' progress) := by
  rw [execute, execute]
  split
  · exact .refl _
  next args ha =>
  apply UpTo.ask
  intro _
  have hattempts := attempts_upTo (bounded_upTo henter step frame index args)
    (Backoff.ofStep step settings.limits.maxRetryDelay) index (frame.halted · index)
    ((Backoff.ofStep step settings.limits.maxRetryDelay).maxAttempts - 1) 1
  apply hattempts.bind
  · rintro ⟨r, count, nested⟩ ⟨e, hr, hlimit⟩
    cases hr
    dsimp only
    rw [recover, if_pos hlimit.endsRun.isFatal, hlimit.endsRun.failStep]
    exact record_givesUp hlimit _
  · rintro ⟨r, count, nested⟩
    cases r with
    | ok value => exact .refl _
    | error e => exact recover_upTo step frame index h _ e progress

theorem lifecycle_upTo (hsteps : steps ≤ settings.limits.maxSteps)
    (henter : small.UpTo (settings.capped depth steps).limits large)
    (h : ∀ progress, UpTo (settings.capped depth steps).limits.Stops (rescue progress)
      (rescue' progress)) (progress : Progress) :
    UpTo (settings.capped depth steps).limits.Stops
      (step.lifecycle (settings.capped depth steps) small frame index rescue progress)
      (step.lifecycle settings large frame index rescue' progress) := by
  have hgo := execute_upTo step frame index henter h progress.begin
  rw [lifecycle, lifecycle]
  apply UpTo.ask
  intro status
  cases status with
  | some cause => exact .refl _
  | none =>
    dsimp only
    by_cases hfull : (settings.capped depth steps).limits.maxSteps ≤ progress.started
    · rw [if_pos hfull]
      exact .givesUp (raise_givesUp (.steps _ _))
    rw [if_neg hfull]
    by_cases hroom : settings.limits.maxSteps ≤ progress.started
    · exact absurd (Nat.le_trans hsteps hroom) hfull
    rw [if_neg hroom]
    apply UpTo.ask
    intro _
    have hjudge : step.judge (settings.capped depth steps).limits (frame.vars progress.begin) =
        step.judge settings.limits (frame.vars progress.begin) := rfl
    have hpolicy : (settings.capped depth steps).limits.conditionErrors =
        settings.limits.conditionErrors := rfl
    rw [hjudge, hpolicy]
    cases step.judge settings.limits (frame.vars progress.begin) with
    | holds => exact hgo
    | fails => exact .refl _
    | broken e =>
      cases settings.limits.conditionErrors with
      | proceed => exact hgo
      | skip => exact .refl _
      | fail => exact .refl _

theorem runAll_upTo (hsteps : steps ≤ settings.limits.maxSteps)
    (henter : small.UpTo (settings.capped depth steps).limits large) (frame : Frame)
    (list : List Step) : ∀ index progress last,
      UpTo (settings.capped depth steps).limits.Stops
        (runAll (settings.capped depth steps) small frame index list progress last)
        (runAll settings large frame index list progress last) := by
  induction list using listInduction with
  | nil =>
    intro index progress last
    rw [runAll, runAll]
    exact .refl _
  | cons step rest ihFallback ihRest =>
    intro index progress last
    rw [runAll, runAll, run_eq, run_eq]
    have hstep := lifecycle_upTo step frame index hsteps henter (fun p => ihFallback 0 p .null)
      progress
    apply hstep.bind
    · rintro r ⟨e, rfl, hlimit⟩
      exact ⟨e, rfl, hlimit⟩
    · intro r
      cases r with
      | error e => exact .refl _
      | ok after => exact ihRest (index + 1) after.1 (after.2.getD last)

end Step

namespace Action

theorem body_upTo (hsteps : steps ≤ settings.limits.maxSteps)
    (henter : small.UpTo (settings.capped depth steps).limits large) (a : Action) (frame : Frame) :
    UpTo (settings.capped depth steps).limits.Stops
      (a.body (settings.capped depth steps) small frame) (a.body settings large frame) := by
  rw [body, body]
  apply UpTo.ask
  intro _
  apply (Step.runAll_upTo hsteps henter frame a.steps 0 {} .null).bind
  · rintro r ⟨e, rfl, hlimit⟩
    exact ⟨e, rfl, hlimit⟩
  · intro r
    have hdepth : (settings.capped depth steps).limits.maxExpressionDepth =
        settings.limits.maxExpressionDepth := rfl
    simp only [conclude_congr hdepth]
    exact .refl _

/-- With fewer levels left a `run` step does the same, until there are none left. -/
theorem enter_upTo (hsteps : steps ≤ settings.limits.maxSteps) (levels more : Nat) :
    (enter (settings.capped depth steps) levels).UpTo (settings.capped depth steps).limits
      (enter settings (levels + more)) := by
  induction levels with
  | zero =>
    intro frame index name params
    exact .givesUp (Step.raise_givesUp (.depth _ _))
  | succ levels ih =>
    intro frame index name params
    rw [Nat.succ_add, enter, enter]
    dsimp only
    have htarget : frame.target (settings.capped depth steps).registry index name params =
        frame.target settings.registry index name params := rfl
    rw [htarget]
    cases frame.target settings.registry index name params with
    | error e => exact .refl _
    | ok target =>
      apply (body_upTo hsteps ih target.1 _).bind
      · rintro r ⟨e, rfl, hlimit⟩
        exact ⟨e, congrArg Except.error (hlimit.endsRun.failRun _ _), hlimit⟩
      · intro r
        exact .refl _

theorem run_upTo (hdepth : depth ≤ settings.limits.maxDepth)
    (hsteps : steps ≤ settings.limits.maxSteps) (a : Action) (frame : Frame) :
    UpTo (settings.capped depth steps).limits.Stops (a.run (settings.capped depth steps) frame)
      (a.run settings frame) := by
  have henter : (enter (settings.capped depth steps) depth).UpTo _ _ :=
    enter_upTo hsteps depth (settings.limits.maxDepth - depth)
  rw [Nat.add_sub_cancel' hdepth] at henter
  exact body_upTo hsteps henter a frame

end Action

end

variable {σ : Type}

theorem Frame.report_result (frame : Frame) {run : Except Interrupt (Outcome Json) × Moment σ}
    {result : Outcome Json} (h : run.1 = .ok result) : (frame.report run).result = result := by
  obtain ⟨_, m⟩ := run
  cases h
  rfl

/--
A run under tighter limits on nesting and on the number of steps fails with a limit exceeded, having
made no call that the run under the wider limits does not make in the same order at the same time,
or the two runs are the same.
-/
theorem execute_capped (settings : Settings) (page : Page σ) (state : σ)
    (cancellation : Cancellation) (a : Action) (params env : Json) {depth steps : Nat}
    (hdepth : depth ≤ settings.limits.maxDepth) (hsteps : steps ≤ settings.limits.maxSteps) :
    let small := settings.capped depth steps
    let tight := execute small page state cancellation a params env
    let wide := execute settings page state cancellation a params env
    (∃ e, tight.1.result = .error e ∧ small.limits.Exceeded e ∧ tight.1.calls <+: wide.1.calls) ∨
      tight = wide := by
  intro small tight wide
  cases hroot : Frame.root settings.registry a params env with
  | error e =>
    have hroot' : Frame.root small.registry a params env = .error e := hroot
    have htight : tight = _ := execute_unbound page state cancellation hroot'
    exact .inr (htight.trans (execute_unbound page state cancellation hroot).symm)
  | ok frame =>
    have hroot' : Frame.root small.registry a params env = .ok frame := hroot
    have htight : tight = _ := execute_bound page state cancellation hroot'
    have hwide : wide = _ := execute_bound page state cancellation hroot
    rw [htight, hwide]
    have hupTo := (Action.run_upTo hdepth hsteps a frame).run page
      { cancellation with deadline := settings.limits.actionTimeout } { page := state }
    rcases hupTo with ⟨r, hrun, ⟨e, rfl, hlimit⟩, hcalls⟩ | hsame
    · refine .inl ⟨e, ?_, hlimit, ?_⟩
      · exact frame.report_result hrun
      · rw [frame.report_calls, frame.report_calls]
        exact hcalls
    · exact .inr (congrArg (fun run => (frame.report run, run.2.page)) hsame)

/-- A visit, and then the same action again one level deeper. -/
def descent : Action where
  name := "descent"
  steps := [
    { kind := .visit, args := [("url", .string "/")] },
    { kind := .run, args := [("action", .string "descent")], onError := .ignore }]

def descending : Settings where
  registry := .ofActions [descent]

/-- Two levels make fewer calls than the ten of the default limits, and the same up to there. -/
theorem execute_capped_descent :
    let tight := execute (descending.capped 2 5) Script.page {} {} descent .null .null
    let wide := execute descending Script.page {} {} descent .null .null
    2 ≤ descending.limits.maxDepth ∧ 5 ≤ descending.limits.maxSteps ∧
      tight.1.calls.length = 3 ∧ wide.1.calls.length = 11 ∧ tight.1.calls <+: wide.1.calls := by
  intro tight wide
  have hdepth : 2 ≤ descending.limits.maxDepth := by decide
  have hsteps : 5 ≤ descending.limits.maxSteps := by decide
  have htight : tight.1.calls.length = 3 := by decide +kernel
  have hwide : wide.1.calls.length = 11 := by decide +kernel
  refine ⟨hdepth, hsteps, htight, hwide, ?_⟩
  rcases execute_capped descending Script.page {} {} descent .null .null hdepth hsteps with
    ⟨e, -, -, hcalls⟩ | hsame
  · exact hcalls
  · have hlength : tight.1.calls.length = wide.1.calls.length :=
      congrArg (fun run => run.1.calls.length) hsame
    rw [htight, hwide] at hlength
    cases hlength

end PageFlow
