import PageFlow.Proofs.Routine.Ends
import PageFlow.Proofs.Run.Follow

namespace PageFlow

theorem Target.find_ends (timeout : Nat) (target : Target) : (target.find timeout).Ends 3 := by
  cases target with
  | plain selector => exact Routine.ends_call _
  | structured definition => exact Routine.ends_call _

theorem PageTask.perform_ends (timeout : Nat) (task : PageTask) :
    (task.perform timeout).Ends 6 := by
  cases task with
  | visit url => exact (Routine.ends_call _).bind (n := 3) fun _ => Routine.ends_pure 3 _
  | evaluate script => exact (Routine.ends_call _).mono (by decide)
  | keyboard key => exact (Routine.ends_call _).bind (n := 3) fun _ => Routine.ends_pure 3 _
  | pause ms => exact Routine.ends_pause_bind (Routine.ends_pure 5 _)
  | onElement target op =>
    apply (target.find_ends timeout).bind (n := 3)
    intro found
    cases found with
    | error e => exact Routine.ends_pure 3 _
    | ok element => exact (Routine.ends_call _).bind (n := 0) fun _ => Routine.ends_pure 0 _

def Enter.Ends (enter : Enter) (n : Nat) : Prop :=
  ∀ (frame : Frame) (index : Nat) (name : String) (params : Json),
    (enter frame index name params).Ends n

namespace Step

variable {enter : Enter} {n m : Nat}

theorem dispatch_ends (h : enter.Ends n) (step : Step) (frame : Frame) (index : Nat)
    (args : Table Json) (timeout : Nat) :
    (step.dispatch enter frame index args timeout).Ends (n + 7) := by
  rw [dispatch]
  split
  · exact Routine.ends_raise _
  · exact (h ..).mono (Nat.le_add_right n 7)
  · next task ht =>
    refine ((task.perform_ends timeout).bind (n := n + 1) fun answer => ?_).mono (by omega)
    cases answer with
    | ok value => exact Routine.ends_pure _ _
    | error e => exact Routine.ends_raise _

theorem bounded_ends (h : enter.Ends n) (step : Step) (limits : Limits) (frame : Frame)
    (index : Nat) (args : Table Json) :
    (step.bounded limits enter frame index args).Ends (n + 8) := by
  rw [bounded]
  have hd := dispatch_ends h step frame index args (step.timeout.getD limits.stepTimeout)
  cases step.bound? limits with
  | none => exact hd.mono (Nat.le_succ _)
  | some ms =>
    apply hd.within.bind (n := 1)
    intro result
    cases result with
    | none => exact Routine.ends_raise _
    | some result => exact Routine.ends_pure _ _

theorem attempts_ends {once : Routine (Outcome Json)} (h : once.Ends n) (policy : Backoff)
    (index : Nat) (halt : Interrupt → ActionError) (left count : Nat) :
    (attempts policy index once halt left count).Ends ((left + 1) * (n + 4)) := by
  induction left generalizing count with
  | zero =>
    rw [attempts]
    rw [show (0 + 1) * (n + 4) = n + 3 + 1 by omega]
    refine Routine.ends_note_bind (h.collect.bind fun ended => ?_)
    obtain ⟨result, nested⟩ := ended
    cases result with
    | ok value => exact Routine.ends_pure _ _
    | error e => dsimp only; split <;> exact Routine.ends_pure _ _
  | succ left ih =>
    rw [attempts]
    have hcount : n + (((left + 1) * (n + 4) + 1) + 2) + 1 = (left + 1 + 1) * (n + 4) := by
      rw [Nat.succ_mul (left + 1)]
      omega
    rw [← hcount]
    refine Routine.ends_note_bind (h.collect.bind fun ended => ?_)
    obtain ⟨result, nested⟩ := ended
    cases result with
    | ok value => exact Routine.ends_pure _ _
    | error e =>
      dsimp only
      split
      · exact Routine.ends_pure _ _
      refine Routine.ends_pause_bind (Routine.ends_status_bind fun cause => ?_)
      cases cause with
      | none => exact (ih (count + 1)).mono (Nat.le_succ _)
      | some cause =>
        exact ((Routine.ends_raise (n := 0) _).bind fun _ => Routine.ends_pure 0 _).mono (by omega)

theorem attemptAll_ends (h : enter.Ends n) (step : Step) (limits : Limits) (frame : Frame)
    (index : Nat) (args : Table Json) :
    (step.attemptAll limits enter frame index args).Ends ((step.retries + 1) * (n + 12)) := by
  refine (attempts_ends (bounded_ends h step limits frame index args) _ _ _ _ _).mono ?_
  exact Nat.mul_le_mul_right _ (Nat.succ_le_succ (Backoff.maxAttempts_le step limits.maxRetryDelay))

theorem record_ends {α : Type} (entry : Entry) (result : α) :
    (record entry result).Ends (n + 1) :=
  Routine.ends_note_bind (Routine.ends_pure n result)

theorem broken_ends {α : Type} (step : Step) (index : Nat) (e : ActionError) :
    (step.broken index e : Routine (Outcome α)).Ends (n + 2) :=
  ((Routine.ends_raise (n := 0) e).bind fun _ => record_ends (n := n) _ _).mono (by omega)

theorem recover_ends {rescue : Progress → Routine (Outcome (Progress × Json))}
    (h : ∀ p, (rescue p).Ends m) (step : Step) (frame : Frame) (index : Nat)
    (entry : StepOutcome → List Entry → Entry) (e : ActionError) (progress : Progress) :
    (step.recover frame index entry rescue e progress).Ends (m + 1) := by
  rw [recover]
  split
  · exact record_ends _ _
  split
  · exact record_ends _ _
  · exact record_ends _ _
  · apply (h progress).collect.bind
    intro ended
    obtain ⟨result, nested⟩ := ended
    cases result <;> exact record_ends _ _

/-- How many requests a step makes at most, by those of what it runs and of its fallback list. -/
def requestLimit (step : Step) (n m : Nat) : Nat :=
  (step.retries + 1) * (n + 12) + m + 5

theorem execute_ends (h : enter.Ends n) {rescue : Progress → Routine (Outcome (Progress × Json))}
    (hr : ∀ p, (rescue p).Ends m) (step : Step) (settings : Settings) (frame : Frame) (index : Nat)
    (progress : Progress) : (step.execute settings enter frame index rescue progress).Ends
      ((step.retries + 1) * (n + 12) + (m + 2) + 1) := by
  rw [execute]
  split
  · exact (broken_ends (n := 0) _ _ _).mono (by omega)
  next args ha =>
  refine Routine.ends_note_bind ((attemptAll_ends h step _ frame index args).bind fun ended => ?_)
  dsimp only
  split
  · exact record_ends _ _
  · exact (recover_ends hr ..).mono (Nat.le_succ _)

theorem lifecycle_ends (h : enter.Ends n) {rescue : Progress → Routine (Outcome (Progress × Json))}
    (hr : ∀ p, (rescue p).Ends m) (step : Step) (settings : Settings) (frame : Frame) (index : Nat)
    (progress : Progress) : (step.lifecycle settings enter frame index rescue progress).Ends
      (step.requestLimit n m) := by
  rw [lifecycle]
  apply Routine.ends_status_bind
  intro status
  split
  · exact Routine.ends_raise _
  split
  · exact Routine.ends_raise _
  refine Routine.ends_note_bind ?_
  have hgo := execute_ends h hr step settings frame index progress.begin
  have hskip {result : Outcome (Progress × Option Json)} :=
    @record_ends ((step.retries + 1) * (n + 12) + (m + 2)) _
      (step.unattempted index .skipped) result
  dsimp only
  split
  · exact hgo
  · exact hskip
  split
  · exact hgo
  · exact hskip
  · exact broken_ends _ _ _

theorem runAll_ends (h : enter.Ends n) (settings : Settings) (steps : List Step) :
    ∃ limit, ∀ (frame : Frame) (index : Nat) (progress : Progress) (last : Json),
      (runAll settings enter frame index steps progress last).Ends limit := by
  induction steps using listInduction with
  | nil => exact ⟨0, fun frame index progress last => Routine.ends_pure 0 _⟩
  | cons step rest ihFallback ihRest =>
    obtain ⟨m, hFallback⟩ := ihFallback
    obtain ⟨k, hRest⟩ := ihRest
    refine ⟨step.requestLimit n m + k, fun frame index progress last => ?_⟩
    have hStep := lifecycle_ends h (fun p => hFallback frame 0 p .null) step settings frame index
      progress
    rw [runAll]
    rw [run_eq]
    apply hStep.bind
    intro result
    cases result with
    | error e => exact Routine.ends_pure _ _
    | ok ended =>
      obtain ⟨after, value⟩ := ended
      exact hRest frame (index + 1) after (value.getD last)

end Step

namespace Action

theorem body_ends {enter : Enter} {n : Nat} (h : enter.Ends n) (settings : Settings) (a : Action) :
    ∃ limit, ∀ frame, (a.body settings enter frame).Ends limit := by
  obtain ⟨k, hk⟩ := Step.runAll_ends h settings a.steps
  refine ⟨k + 1 + 1, fun frame => ?_⟩
  rw [body]
  refine Routine.ends_note_bind ((hk frame 0 {} .null).bind fun result => ?_)
  cases result with
  | error e => exact Routine.ends_pure _ _
  | ok ended =>
    dsimp only
    split
    · exact Routine.ends_raise _
    · exact Routine.ends_pure _ _

/-- One limit does for all the actions of a registry. -/
theorem bodies_end {enter : Enter} {n : Nat} (h : enter.Ends n) (settings : Settings)
    (actions : Table Action) :
    ∃ limit, ∀ a ∈ actions.map Prod.snd, ∀ frame, (a.body settings enter frame).Ends limit := by
  induction actions with
  | nil => exact ⟨0, by simp⟩
  | cons entry rest ih =>
    obtain ⟨k, hk⟩ := body_ends h settings entry.2
    obtain ⟨limit, hlimit⟩ := ih
    refine ⟨max k limit, fun a ha frame => ?_⟩
    rcases List.mem_cons.1 ha with rfl | ha
    · exact (hk frame).mono (Nat.le_max_left k limit)
    · exact (hlimit a ha frame).mono (Nat.le_max_right k limit)

end Action

namespace Action

theorem enter_ends (settings : Settings) (levels : Nat) : ∃ n, (enter settings levels).Ends n := by
  induction levels with
  | zero => exact ⟨1, fun frame index name params => Routine.ends_raise _⟩
  | succ levels ih =>
    obtain ⟨n, hn⟩ := ih
    obtain ⟨limit, hlimit⟩ := bodies_end hn settings settings.registry.actions
    refine ⟨limit + 1, fun frame index name params => ?_⟩
    unfold enter
    split
    · exact Routine.ends_raise _
    next a bound ht =>
    exact ((hlimit a (Frame.mem_of_target ht) _).bind fun _ => Routine.ends_pure 1 _)

/-- A run ends after a number of requests that the page has no influence on. -/
theorem run_ends (settings : Settings) (a : Action) : ∃ n, ∀ frame, (a.run settings frame).Ends n :=
  (enter_ends settings settings.limits.maxDepth).elim fun _ h => body_ends h settings a

end Action

theorem history_ends (settings : Settings) (a : Action) :
    ∃ n, ∀ (σ : Type) (page : Page σ) (state : σ) (cancellation : Cancellation) (params env : Json),
      (history settings page state cancellation a params env).length ≤ n := by
  obtain ⟨n, hn⟩ := a.run_ends settings
  refine ⟨n, fun σ page state cancellation params env => ?_⟩
  rw [history]
  split
  · exact Nat.zero_le n
  · exact (hn _).length_asked page _ _

end PageFlow
