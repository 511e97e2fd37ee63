import PageFlow.Page.Scripted
import PageFlow.Proofs.Routine.Leave
import PageFlow.Proofs.Run.Propagation

namespace PageFlow

/-- The result is a failure that ends the run. -/
def Outcome.EndsRun {α : Type} (r : Outcome α) : Prop :=
  ∃ e : ActionError, r = .error e ∧ e.EndsRun

theorem Frame.halted_endsRun (frame : Frame) (cause : Interrupt) (index : Nat) :
    (frame.halted cause index).EndsRun := by
  cases cause with
  | cancelled => exact .raised .cancelled frame.action (some index)
  | deadline ms => exact .raised (.actionTimeout ms) frame.action (some index)

open Routine (GivesUp Obeys)

def Enter.Obeys (enter : Enter) : Prop :=
  ∀ frame index name params, (enter frame index name params).Obeys Outcome.EndsRun .none

theorem Routine.call_obeys {α : Type} {bad : α → Prop} {leave : Leave} {c : Call}
    {f : Except PageError c.Answer → Routine α} (hc : leave.Grants c)
    (hf : ∀ answer, (f answer).Obeys bad (leave.afterCall c)) :
    (Routine.call c >>= f).Obeys bad leave := by
  refine ⟨hc, fun ms => ?_⟩
  change Obeys bad (leave.afterCall c).afterPause _
  rw [leave.afterCall_afterPause]
  exact hf

theorem Target.find_obeys {α : Type} {bad : α → Prop} (timeout : Nat) (target : Target)
    {f : Except PageError Element → Routine α} (hf : ∀ answer, (f answer).Obeys bad .use) :
    (target.find timeout >>= f).Obeys bad .any := by
  cases target with
  | plain selector => exact Routine.call_obeys trivial hf
  | structured definition => exact Routine.call_obeys trivial hf

theorem PageTask.perform_obeys (timeout : Nat) (task : PageTask) :
    (task.perform timeout).Obeys (fun _ => False) .any := by
  cases task with
  | visit url => exact Routine.call_obeys trivial fun answer => trivial
  | evaluate script =>
    rw [perform, ← Routine.bind_pure (Routine.call _)]
    exact Routine.call_obeys trivial fun answer => trivial
  | keyboard key => exact Routine.call_obeys trivial fun answer => trivial
  | pause ms => trivial
  | onElement target op =>
    apply target.find_obeys timeout
    intro answer
    cases answer with
    | error e => trivial
    | ok element => exact Routine.call_obeys ⟨element, op, rfl⟩ fun answer => trivial

namespace Step

variable {enter : Enter} (step : Step) (frame : Frame) (index : Nat)
  {rescue : Progress → Routine (Outcome (Progress × Json))}

theorem dispatch_obeys (henter : enter.Obeys) (args : Table Json) (timeout : Nat) :
    (step.dispatch enter frame index args timeout).Obeys Outcome.EndsRun .any := by
  rw [dispatch]
  cases Task.ofArgs args step.kind frame.selectors timeout with
  | error fault => trivial
  | ok task =>
    cases task with
    | run name params => exact (henter frame index name params).of_none .any
    | page task =>
      apply (task.perform_obeys timeout).bind
      · exact fun _ => False.elim
      · intro r
        cases r with
        | ok value => trivial
        | error e => trivial

theorem bounded_obeys (henter : enter.Obeys) (limits : Limits) (args : Table Json) :
    (step.bounded limits enter frame index args).Obeys Outcome.EndsRun .any := by
  have hwork := step.dispatch_obeys frame index henter args
    (step.timeout.getD limits.stepTimeout)
  rw [bounded]
  cases step.bound? limits with
  | none => exact hwork
  | some ms =>
    apply (hwork.within ms).bind
    · rintro _ ⟨result, rfl, hresult⟩
      exact hresult
    · intro result
      cases result with
      | none => trivial
      | some result => trivial

theorem attempts_obey {once : Routine (Outcome Json)} (h : once.Obeys Outcome.EndsRun .any)
    (policy : Backoff) (left count : Nat) :
    (attempts policy index once (frame.halted · index) left count).Obeys
      (fun ended => Outcome.EndsRun ended.result) .any := by
  induction left generalizing count with
  | zero =>
    rw [attempts]
    apply (h.collect (.attempt index count) []).bind
    · rintro ⟨r, nested⟩ ⟨e, rfl, he⟩
      simp only [he.isFatal, ↓reduceIte]
      exact ⟨e, rfl, he⟩
    · rintro ⟨r, nested⟩
      cases r with
      | ok value => trivial
      | error e =>
        dsimp only
        split
        · trivial
        · trivial
  | succ left ih =>
    rw [attempts]
    apply (h.collect (.attempt index count) []).bind
    · rintro ⟨r, nested⟩ ⟨e, rfl, he⟩
      simp only [he.isFatal, ↓reduceIte]
      exact ⟨e, rfl, he⟩
    · rintro ⟨r, nested⟩
      cases r with
      | ok value => trivial
      | error e =>
        dsimp only
        split
        · trivial
        · refine ⟨ih (count + 1), fun cause => ?_⟩
          exact ⟨_, rfl, frame.halted_endsRun cause index⟩

theorem recover_obeys (h : ∀ progress, (rescue progress).Obeys Outcome.EndsRun .none)
    (entry : StepOutcome → List Entry → Entry) (e : ActionError) (progress : Progress) :
    (step.recover frame index entry rescue e progress).Obeys Outcome.EndsRun .none := by
  rw [recover]
  split
  · trivial
  split
  · trivial
  · trivial
  apply ((h progress).collect (.fallback index) []).bind
  · rintro ⟨r, nested⟩ ⟨fault, hr, hfault⟩
    cases hr
    dsimp only
    rw [hfault.failStep]
    exact ⟨fault, rfl, hfault⟩
  · rintro ⟨r, nested⟩
    cases r with
    | ok value => trivial
    | error e => trivial

theorem execute_obeys (settings : Settings) (henter : enter.Obeys)
    (h : ∀ progress, (rescue progress).Obeys Outcome.EndsRun .none) (progress : Progress) :
    (step.execute settings enter frame index rescue progress).Obeys Outcome.EndsRun .any := by
  rw [execute]
  split
  · trivial
  next args ha =>
  have hattempts := attempts_obey frame index
    (step.bounded_obeys frame index henter settings.limits args)
    (Backoff.ofStep step settings.limits.maxRetryDelay)
    ((Backoff.ofStep step settings.limits.maxRetryDelay).maxAttempts - 1) 1
  apply hattempts.bind
  · rintro ⟨r, count, nested⟩ ⟨e, hr, he⟩
    cases hr
    dsimp only
    rw [recover, if_pos he.isFatal, he.failStep]
    exact ⟨e, rfl, he⟩
  · rintro ⟨r, count, nested⟩
    cases r with
    | ok value => trivial
    | error e => exact step.recover_obeys frame index h _ e progress

/-- A step needs no leave of what comes before it: it checks the status first. -/
theorem lifecycle_obeys (settings : Settings) (henter : enter.Obeys)
    (h : ∀ progress, (rescue progress).Obeys Outcome.EndsRun .none) (progress : Progress) :
    (step.lifecycle settings enter frame index rescue progress).Obeys Outcome.EndsRun .none := by
  have hgo := step.execute_obeys frame index settings henter h progress.begin
  rw [lifecycle]
  refine ⟨?_, fun cause => ⟨_, rfl, frame.halted_endsRun cause index⟩⟩
  dsimp only
  split
  · trivial
  cases step.judge settings.limits (frame.vars progress.begin) with
  | holds => exact hgo
  | fails => trivial
  | broken e =>
    cases settings.limits.conditionErrors with
    | proceed => exact hgo
    | skip => trivial
    | fail => trivial

theorem runAll_obeys (settings : Settings) (henter : enter.Obeys) (steps : List Step) :
    ∀ index progress last,
      (runAll settings enter frame index steps progress last).Obeys Outcome.EndsRun .none := by
  induction steps using listInduction with
  | nil =>
    intro index progress last
    rw [runAll]
    trivial
  | cons step rest ihFallback ihRest =>
    intro index progress last
    rw [runAll, run_eq]
    have hstep := step.lifecycle_obeys frame index settings henter (fun p => ihFallback 0 p .null)
      progress
    apply hstep.bind
    · rintro r ⟨e, rfl, he⟩
      exact ⟨e, rfl, he⟩
    · intro r
      cases r with
      | error e => trivial
      | ok after => exact ihRest (index + 1) after.1 (after.2.getD last)

end Step

namespace Action

variable {settings : Settings}

theorem body_obeys {enter : Enter} (henter : enter.Obeys) (a : Action) (frame : Frame) :
    (a.body settings enter frame).Obeys Outcome.EndsRun .none := by
  rw [body]
  apply (Step.runAll_obeys frame settings henter a.steps 0 {} .null).bind
  · rintro r ⟨e, rfl, he⟩
    exact ⟨e, rfl, he⟩
  · intro r
    cases r with
    | error e => trivial
    | ok done =>
      dsimp only
      split
      · trivial
      · trivial

theorem enter_obeys (settings : Settings) (levels : Nat) : (enter settings levels).Obeys := by
  induction levels with
  | zero =>
    intro frame index name params
    trivial
  | succ levels ih =>
    intro frame index name params
    rw [enter]
    dsimp only
    cases frame.target settings.registry index name params with
    | error e => trivial
    | ok target =>
      apply (body_obeys ih target.1 _).bind
      · rintro r ⟨e, rfl, he⟩
        exact ⟨e, congrArg Except.error (he.failRun _ _), he⟩
      · intro r
        trivial

theorem run_obeys (a : Action) (settings : Settings) (frame : Frame) :
    (a.run settings frame).Obeys Outcome.EndsRun .none :=
  body_obeys (enter_obeys settings settings.limits.maxDepth) a frame

end Action

variable {σ : Type}

/--
A run makes the calls that it makes without its cancellation, up to some call. After a call by
which, or while which, it is cancelled there is no other, but for the use of the element that this
call has looked for; nothing is begun, repeated or reported in between.
-/
theorem execute_windsUp (settings : Settings) (page : Page σ) (state : σ)
    (cancellation : Cancellation) (a : Action) (params env : Json) :
    let whole := (execute settings page state {} a params env).1
    let cut := (execute settings page state cancellation a params env).1
    let requests := history settings page state cancellation a params env
    cut.calls <+: whole.calls ∧ cut.calls = callsOf requests ∧
      ∀ before t c after, requests = before ++ (t, .send c) :: after →
        cancellation.FiresDuring (callsOf before).length t c after → WindsUp c after := by
  intro whole cut requests
  have hcalls : cut.calls = callsOf requests := execute_calls page state cancellation settings a
    params env
  cases hroot : Frame.root settings.registry a params env with
  | error e =>
    have hcut : cut = _ := congrArg Prod.fst (execute_unbound page state cancellation hroot)
    have hrequests : requests = [] := by
      change history .. = []
      rw [history, hroot]
    refine ⟨?_, hcalls, ?_⟩
    · rw [hcut]
      exact List.nil_prefix
    · intro before t c after hsplit
      rw [hrequests] at hsplit
      simp at hsplit
  | ok frame =>
    have hobeys := a.run_obeys settings frame
    have hcut : cut = _ := congrArg Prod.fst (execute_bound page state cancellation hroot)
    have hwhole : whole = _ := congrArg Prod.fst (execute_bound page state {} hroot)
    have hrequests : requests = _ := history_bound page state cancellation hroot
    refine ⟨?_, hcalls, ?_⟩
    · rw [hcut, hwhole, frame.report_calls, frame.report_calls]
      exact hobeys.calls_isPrefix page
        { cancellation with deadline := settings.limits.actionTimeout } { page := state }
    · intro before t c after hsplit hfires
      rw [hrequests] at hsplit
      apply hobeys.windsUp_of_fires hsplit
      rw [List.length_nil, Nat.zero_add]
      exact hfires

def pressing : Action where
  name := "pressing"
  steps := [
    { kind := .click, args := [("selector", .string "#a")], retries := 2, retryDelay := 0 }]

def stuck : Script where
  failures := [("click:#a", List.replicate 3 (some (.failed "stuck")))]

/-- A cancellation while the second attempt looks for its element: it is clicked once more. -/
theorem execute_windsUp_pressing :
    let whole := (execute {} Script.page stuck {} pressing .null .null).1
    let cut := (execute {} Script.page stuck { nth? := some 2 } pressing .null .null).1
    let requests := history {} Script.page stuck { nth? := some 2 } pressing .null .null
    whole.calls.length = 6 ∧
      cut.calls.map (·.2.operation) = ["locate", "click", "locate", "click"] ∧
      cut.calls <+: whole.calls ∧
      ∀ before t c after, requests = before ++ (t, .send c) :: after →
        (callsOf before).length = 2 → WindsUp c after := by
  intro whole cut requests
  obtain ⟨hcalls, -, hwinds⟩ :=
    execute_windsUp {} Script.page stuck { nth? := some 2 } pressing .null .null
  refine ⟨by decide +kernel, by decide +kernel, hcalls, ?_⟩
  intro before t c after hsplit hsecond
  apply hwinds before t c after hsplit
  rw [hsecond]
  exact .inl rfl

end PageFlow
