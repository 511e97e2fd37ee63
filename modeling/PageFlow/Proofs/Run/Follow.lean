import PageFlow.Proofs.Run.Course

namespace PageFlow

open Event (here)

namespace Routine

variable {α : Type}

variable {β : Type} {Q : List Event → Option β → Prop}

theorem always_note_bind {news : News} {f : Unit → Routine β}
    (h : (f ()).Always fun es r => Q (here news :: es) r) : (note news >>= f).Always Q :=
  h

theorem always_pause_bind {ms : Nat} {f : Unit → Routine β} (cut : Q [] none)
    (h : (f ()).Always Q) : (pause ms >>= f).Always Q :=
  ⟨cut, h⟩

theorem always_status_bind {f : Option Interrupt → Routine β} (h : ∀ s, (f s).Always Q) :
    (status >>= f).Always Q :=
  h

theorem always_raise_bind {e : ActionError} {f : Outcome α → Routine β}
    (h : (f (.error e)).Always fun es r => Q (here (.raised e) :: es) r) :
    (raise e >>= f).Always Q :=
  h

@[simp] theorem always_pure {a : α} {Q : List Event → Option α → Prop} :
    (pure a : Routine α).Always Q ↔ Q [] (some a) :=
  Iff.rfl

@[simp] theorem always_raise {e : ActionError} {Q : List Event → Option (Outcome α) → Prop} :
    (raise e).Always Q ↔ Q [here (.raised e)] (some (.error e)) :=
  Iff.rfl

theorem always_call {c : Call} {Q : List Event → Option (Except PageError c.Answer) → Prop}
    (h : ∀ r, Q [.sent c] r) : (call c).Always Q :=
  fun _ => ⟨h none, fun answer => h (some answer)⟩

end Routine

theorem Target.find_always (timeout : Nat) (target : Target) :
    (target.find timeout).Always fun es _ => ∃ c : Call, es = [.sent c] := by
  cases target with
  | plain selector => exact Routine.always_call fun r => ⟨_, rfl⟩
  | structured definition => exact Routine.always_call fun r => ⟨_, rfl⟩

/-- A task asks at most two things of the page, and reports nothing. -/
theorem PageTask.perform_always (timeout : Nat) (task : PageTask) :
    (task.perform timeout).Always fun es _ =>
      ∃ calls : List Call, calls.length ≤ 2 ∧ es = calls.map Event.sent := by
  cases task with
  | visit url =>
    apply Routine.Always.bind
    apply Routine.always_call
    intro r
    cases r with
    | none => exact ⟨[_], by simp, rfl⟩
    | some answer => exact ⟨[_], by simp, rfl⟩
  | evaluate script => exact Routine.always_call fun r => ⟨[_], by simp, rfl⟩
  | keyboard key =>
    apply Routine.Always.bind
    apply Routine.always_call
    intro r
    cases r with
    | none => exact ⟨[_], by simp, rfl⟩
    | some answer => exact ⟨[_], by simp, rfl⟩
  | pause ms => exact ⟨⟨[], by simp, rfl⟩, ⟨[], by simp, rfl⟩⟩
  | onElement target op =>
    apply Routine.Always.bind
    refine (target.find_always timeout).mono ?_
    rintro es r ⟨c, rfl⟩
    match r with
    | none => exact ⟨[c], by simp, rfl⟩
    | some (.error e) => exact ⟨[c], by simp, rfl⟩
    | some (.ok element) =>
      apply Routine.Always.bind
      apply Routine.always_call
      intro r
      cases r with
      | none => exact ⟨[c, _], by simp, rfl⟩
      | some answer => exact ⟨[c, _], by simp, rfl⟩

namespace Step

variable {settings : Settings} {levels : Nat}

/-- What an attempt does without its limit, at some level, is a course. -/
def Followed (settings : Settings) (levels : Nat) : Prop :=
  ∀ (step : Step) (frame : Frame) (index : Nat) (args : Table Json),
    (step.dispatch (Action.enter settings levels) frame index args
      (step.timeout.getD settings.limits.stepTimeout)).Always
        (Course settings (.dispatch levels frame index step args))

theorem bounded_follows (h : Followed settings levels) (step : Step) (frame : Frame) (index : Nat)
    (args : Table Json) :
    (step.bounded settings.limits (Action.enter settings levels) frame index args).Always
      (Course settings (.bounded levels frame index step args)) := by
  rw [bounded]
  have hd := h step frame index args
  cases hb : step.bound? settings.limits with
  | none => exact hd.mono fun es r hc => .inTime hc
  | some ms =>
    apply Routine.Always.bind
    apply Routine.Always.within
    apply hd.mono
    intro es r hc
    cases r with
    | none => exact ⟨.inTime hc, .timedOut hc hb rfl⟩
    | some result =>
      change Course settings _ (es ++ []) _
      rw [List.append_nil]
      exact .inTime hc

theorem attempts_follow (h : Followed settings levels) (step : Step) (frame : Frame) (index : Nat)
    (args : Table Json) (policy : Backoff) (left count : Nat) :
    (attempts policy index
      (step.bounded settings.limits (Action.enter settings levels) frame index args)
      (frame.halted · index) left count).Always
        (Course settings (.attempts levels frame index step args left count)) := by
  induction left generalizing count with
  | zero =>
    rw [attempts]
    apply Routine.always_note_bind
    apply Routine.Always.bind
    apply Routine.Always.collect
    apply (bounded_follows h step frame index args).mono
    intro es r hc
    match r with
    | none => exact .attemptCut hc
    | some (.ok value) =>
      have hlast : Course settings (.attempts levels frame index step args 0 count) _ _ :=
        .attemptLast hc (by simp)
      simpa using hlast
    | some (.error e) =>
      have hlast : Course settings (.attempts levels frame index step args 0 count) _ _ :=
        .attemptLast hc (by simp)
      simpa using hlast
  | succ left ih =>
    rw [attempts]
    apply Routine.always_note_bind
    apply Routine.Always.bind
    apply Routine.Always.collect
    apply (bounded_follows h step frame index args).mono
    intro es r hc
    match r with
    | none => exact .attemptCut hc
    | some (.ok value) =>
      have hlast : Course settings (.attempts levels frame index step args (left + 1) count) _ _ :=
        .attemptLast hc (by simp)
      simpa using hlast
    | some (.error e) =>
      by_cases hf : e.isFatal
      · have hlast : ∀ e', (.error e : Outcome Json) = .error e' → e'.isFatal ∨ left + 1 = 0 := by
          rintro e' ⟨⟩
          exact .inl hf
        have hcourse : Course settings (.attempts levels frame index step args (left + 1) count)
            _ _ := .attemptLast hc hlast
        simpa [hf] using hcourse
      · simp only [hf, Option.map_some, Bool.false_eq_true, ↓reduceIte]
        refine Routine.always_pause_bind (by simpa using Course.pauseCut hc hf) ?_
        apply Routine.always_status_bind
        intro status
        cases status with
        | none => exact (ih (count + 1)).mono fun fs r hr => .again hc hf hr
        | some cause =>
          apply Routine.always_raise_bind
          have hhalted := @Course.pauseHalted _ _ _ _ _ _ left count _ _ _ cause hc hf rfl
          simpa using hhalted

/-- The steps of a fallback list follow their courses, whatever was recorded before them. -/
def RescueFollows (settings : Settings) (levels : Nat) (frame : Frame) (step : Step)
    (rescue : Progress → Routine (Outcome (Progress × Json))) : Prop :=
  ∀ progress, (rescue progress).Always
    (Course settings (.steps levels frame 0 step.fallback progress .null))

variable {frame : Frame} {step : Step} {rescue : Progress → Routine (Outcome (Progress × Json))}

theorem recover_follows (hr : RescueFollows settings levels frame step rescue) (index : Nat)
    (args : Table Json) (progress : Progress) {ended : Attempted} {e : ActionError}
    (he : ended.result = .error e) :
    (step.recover frame index (step.entry settings index args ended) rescue e progress).Always
      (Course settings (.ending levels frame index step args progress ended)) := by
  rw [recover]
  split
  · next hf => exact .aborted he (.inl hf)
  next hf =>
  split
  · next hp => exact .aborted he (.inr hp)
  · next hp => exact .ignored he hf hp
  next hp =>
  apply Routine.Always.bind
  apply Routine.Always.collect
  apply (hr progress).mono
  intro es r hc
  match r with
  | none => exact .rescueCut he hf hp hc
  | some (.ok (after, value)) => exact .rescued he hf hp hc
  | some (.error fault) => exact .unrescued he hf hp hc

theorem execute_follows (h : Followed settings levels)
    (hr : RescueFollows settings levels frame step rescue) (index : Nat) {progress : Progress}
    (room : progress.started < settings.limits.maxSteps)
    (passes : step.Passes settings.limits (frame.vars progress.begin)) :
    (step.execute settings (Action.enter settings levels) frame index rescue progress.begin).Always
      fun es r => Course settings (.step levels frame index step progress)
        (here (.begun index step progress) :: es) r := by
  rw [execute]
  split
  · next e ha => exact .broken room (.inr ⟨passes, ha⟩) rfl
  next args ha =>
  apply Routine.always_note_bind
  apply Routine.Always.bind
  apply (attempts_follow h step frame index args _ _ _).mono
  intro es r hc
  match r with
  | none => exact .attemptsCut room ⟨passes, ha⟩ hc
  | some ended =>
    dsimp only
    cases he : ended.result with
    | ok value => exact .attempted room ⟨passes, ha⟩ hc (.succeeded he)
    | error e =>
      exact (recover_follows hr index args progress.begin he).mono fun fs r hf =>
        .attempted room ⟨passes, ha⟩ hc hf

theorem lifecycle_follows (h : Followed settings levels)
    (hr : RescueFollows settings levels frame step rescue) (index : Nat) (progress : Progress) :
    (step.lifecycle settings (Action.enter settings levels) frame index rescue progress).Always
      (Course settings (.step levels frame index step progress)) := by
  rw [lifecycle]
  apply Routine.always_status_bind
  intro status
  split
  · exact .halted rfl
  split
  · next hfull => exact .overLimit hfull rfl
  next hroom =>
  have room := Nat.lt_of_not_le hroom
  apply Routine.always_note_bind
  dsimp only
  split
  · next hj => exact execute_follows h hr index room (.inl hj)
  · next hj => exact .skipped room (.inl hj)
  next e hj =>
  split
  · next hp => exact execute_follows h hr index room (.inr ⟨⟨e, hj⟩, hp⟩)
  · next hp => exact .skipped room (.inr ⟨⟨e, hj⟩, hp⟩)
  · next hp => exact .broken room (.inl ⟨hj, hp⟩) rfl

theorem run_eq (settings : Settings) (enter : Enter) (frame : Frame) (index : Nat) (step : Step)
    (progress : Progress) :
    run settings enter frame index step progress =
      step.lifecycle settings enter frame index
        (fun p => runAll settings enter frame 0 step.fallback p .null) progress := by
  cases step
  rw [run]

theorem runAll_follows (h : Followed settings levels) (frame : Frame) (steps : List Step) :
    ∀ (index : Nat) (progress : Progress) (last : Json),
      (runAll settings (Action.enter settings levels) frame index steps progress last).Always
        (Course settings (.steps levels frame index steps progress last)) := by
  induction steps using listInduction with
  | nil => exact fun index progress last => .noSteps
  | cons step rest ihFallback ihRest =>
    intro index progress last
    rw [runAll]
    apply Routine.Always.bind
    rw [run_eq]
    refine (lifecycle_follows h (fun p => ihFallback 0 p .null) index progress).mono
      fun es r hc => ?_
    match r with
    | none => exact .stepCut hc
    | some (.error e) => simpa using Course.stepFails hc
    | some (.ok (after, value)) =>
      exact (ihRest (index + 1) after (value.getD last)).mono fun fs r ht => .stepDone hc ht

end Step

namespace Action

variable {settings : Settings} {levels : Nat}

theorem body_follows (h : Step.Followed settings levels) (a : Action) (frame : Frame) :
    (a.body settings (enter settings levels) frame).Always
      (Course settings (.action levels frame a)) := by
  rw [body]
  apply Routine.always_note_bind
  apply Routine.Always.bind
  apply (Step.runAll_follows h frame a.steps 0 {} .null).mono
  intro es r hc
  match r with
  | none => exact .actionCut hc
  | some (.error e) => simpa using Course.actionFails hc
  | some (.ok (progress, last)) =>
    dsimp only
    split
    · next e he => exact .actionRefused hc he
    · next value hv => simpa using Course.actionDone hc hv

theorem page_follows {step : Step} {frame : Frame} {index : Nat} {args : Table Json}
    {task : PageTask} (ht : Task.ofArgs args step.kind frame.selectors
      (step.timeout.getD settings.limits.stepTimeout) = .ok (.page task)) (timeout : Nat) :
    Routine.Always (do
      match ← task.perform timeout with
      | .ok value => return .ok value
      | .error e => Routine.raise (frame.error (.ofPage e) (some index)))
      (Course settings (.dispatch levels frame index step args)) := by
  apply Routine.Always.bind
  refine (task.perform_always timeout).mono ?_
  rintro es r ⟨calls, few, rfl⟩
  match r with
  | none => exact .onPage (r := none) ht few
  | some (.ok value) => simpa using Course.onPage (r := some value) ht few
  | some (.error fault) => exact .pageFails ht few rfl

theorem dispatch_follows (settings : Settings) (levels : Nat) : Step.Followed settings levels := by
  induction levels with
  | zero =>
    intro step frame index args
    rw [Step.dispatch]
    split
    · next ht => exact .refused ht rfl
    · next ht => exact .tooDeep ht rfl
    · next ht => exact page_follows ht _
  | succ levels ih =>
    intro step frame index args
    rw [Step.dispatch]
    split
    · next ht => exact .refused ht rfl
    · next name params ht =>
      unfold enter
      split
      · next e htarget => exact .noTarget ht htarget
      next a bound htarget =>
      apply Routine.Always.bind
      apply (body_follows ih a _).mono
      intro es r hc
      match r with
      | none => exact .ran ht htarget hc
      | some result => simpa using Course.ran ht htarget hc
    · next ht => exact page_follows ht _

/-- Every run of an action takes a course. -/
theorem run_follows (settings : Settings) (a : Action) (frame : Frame) :
    (a.run settings frame).Always
      (Course settings (.action settings.limits.maxDepth frame a)) :=
  body_follows (dispatch_follows settings settings.limits.maxDepth) a frame

end Action

end PageFlow
