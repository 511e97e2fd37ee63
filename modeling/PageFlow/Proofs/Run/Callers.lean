import PageFlow.Proofs.Routine.Alike
import PageFlow.Proofs.Run.Record

namespace PageFlow

/-- With these arguments the step runs an action with bound parameters. -/
def Step.Calls (step : Step) (settings : Settings) (frame : Frame) (index : Nat)
    (args : Table Json) (a : Action) (bound : Table Json) : Prop :=
  ∃ name params, Task.ofArgs args step.kind frame.selectors
      (step.timeout.getD settings.limits.stepTimeout) = .ok (.run name params) ∧
    frame.target settings.registry index name params = .ok (a, bound)

/-- A step that is dispatched, with the frame of its action and what steps have left by then. -/
structure Caller where
  frame : Frame
  progress : Progress
  index : Nat
  step : Step
  args : Table Json

namespace Caller

structure Runs (c : Caller) (settings : Settings) (a : Action) (bound : Table Json) : Prop where
  runs : c.step.Runs settings.limits (c.frame.vars c.progress) c.args
  calls : c.step.Calls settings c.frame c.index c.args a bound

/-- Callers that agree on what a nested action is given besides its parameters. -/
structure Peers (c c' : Caller) : Prop where
  env : c.frame.env = c'.frame.env
  depth : c.frame.depth = c'.frame.depth

/-- Steps with the same limit on an attempt and the same repetitions. -/
structure SamePolicy (c c' : Caller) : Prop where
  timeout : c.step.timeout = c'.step.timeout
  retries : c.step.retries = c'.step.retries
  retryDelay : c.step.retryDelay = c'.step.retryDelay

def once (c : Caller) (settings : Settings) (levels : Nat) :
    Routine (Outcome Json × List Entry) :=
  (c.step.dispatch (Action.enter settings levels) c.frame c.index c.args
    (c.step.timeout.getD settings.limits.stepTimeout)).collect (.attempt c.index 1) []

def attempts (c : Caller) (settings : Settings) (levels : Nat) : Routine Attempted :=
  c.step.attemptAll settings.limits (Action.enter settings levels) c.frame c.index c.args

/-- The same value, or failures that differ only in the caller's action and step. -/
inductive SameOutcome (c c' : Caller) : Outcome Json → Outcome Json → Prop
  | value (v : Json) : SameOutcome c c' (.ok v) (.ok v)
  /-- The action has failed. -/
  | nested (e : ActionError) :
    SameOutcome c c' (.error (e.failRun c.frame.action c.index))
      (.error (e.failRun c'.frame.action c'.index))
  /-- The step has failed by itself. -/
  | own (fault : ActionFault) :
    SameOutcome c c' (.error (c.frame.error fault (some c.index)))
      (.error (c'.frame.error fault (some c'.index)))

structure SameAttempted (c c' : Caller) (x y : Attempted) : Prop where
  result : c.SameOutcome c' x.result y.result
  attempts : x.attempts = y.attempts
  nested : x.nested = y.nested

variable {settings : Settings} {c c' : Caller} {a : Action} {bound : Table Json}

open Routine (Alike)

theorem SameOutcome.elim {x y : Outcome Json} (h : c.SameOutcome c' x y) :
    (∃ v, x = .ok v ∧ y = .ok v) ∨
      ∃ e e', x = .error e ∧ y = .error e' ∧ e.isFatal = e'.isFatal := by
  cases h with
  | value v => exact .inl ⟨v, rfl, rfl⟩
  | nested e =>
    refine .inr ⟨_, _, rfl, rfl, ?_⟩
    unfold ActionError.failRun
    split <;> rfl
  | own fault => exact .inr ⟨_, _, rfl, rfl, rfl⟩

theorem Peers.child_eq (h : c.Peers c') (r : Registry) (a : Action) (bound : Table Json) :
    c.frame.child r a bound = c'.frame.child r a bound := by
  rw [Frame.child, Frame.child, h.env, h.depth]

theorem raise_alike (fault : ActionFault) :
    Alike (c.SameOutcome c') (Routine.raise (c.frame.error fault (some c.index)))
      (Routine.raise (c'.frame.error fault (some c'.index))) :=
  .note rfl (.done (.own fault))

theorem dispatch_alike (hc : c.step.Calls settings c.frame c.index c.args a bound)
    (hc' : c'.step.Calls settings c'.frame c'.index c'.args a bound) (h : c.Peers c')
    (levels : Nat) :
    Alike (c.SameOutcome c')
      (c.step.dispatch (Action.enter settings levels) c.frame c.index c.args
        (c.step.timeout.getD settings.limits.stepTimeout))
      (c'.step.dispatch (Action.enter settings levels) c'.frame c'.index c'.args
        (c'.step.timeout.getD settings.limits.stepTimeout)) := by
  obtain ⟨name, params, htask, htarget⟩ := hc
  obtain ⟨name', params', htask', htarget'⟩ := hc'
  rw [Step.dispatch, Step.dispatch, htask, htask']
  cases levels with
  | zero => exact raise_alike _
  | succ levels =>
    have hchild := h.child_eq settings.registry a bound
    simp only [Action.enter, htarget, htarget', hchild]
    apply (Alike.refl _).bind
    intro result result' hresult
    subst hresult
    cases result with
    | error e => exact .done (.nested e)
    | ok value => exact .done (.value value)

theorem bounded_alike (hc : c.step.Calls settings c.frame c.index c.args a bound)
    (hc' : c'.step.Calls settings c'.frame c'.index c'.args a bound) (h : c.Peers c')
    (htimeout : c.step.timeout = c'.step.timeout) (levels : Nat) :
    Alike (c.SameOutcome c')
      (c.step.bounded settings.limits (Action.enter settings levels) c.frame c.index c.args)
      (c'.step.bounded settings.limits (Action.enter settings levels) c'.frame c'.index
        c'.args) := by
  have hwork := dispatch_alike hc hc' h levels
  have hbound : c.step.bound? settings.limits = c'.step.bound? settings.limits := by
    obtain ⟨name, params, htask, -⟩ := hc
    obtain ⟨name', params', htask', -⟩ := hc'
    rw [Step.bound?, Step.bound?, Task.ofArgs_run htask, Task.ofArgs_run htask', htimeout]
  rw [Step.bounded, Step.bounded, hbound]
  cases c'.step.bound? settings.limits with
  | none => exact hwork
  | some ms =>
    apply (hwork.within ms).bind
    intro x y hxy
    cases hxy with
    | none => exact raise_alike _
    | some hxy => exact .done hxy

theorem repeat_alike {policy : Backoff} {once once' : Routine (Outcome Json)}
    (h : Alike (c.SameOutcome c') once once') (left count : Nat) :
    Alike (c.SameAttempted c')
      (Step.attempts policy c.index once (c.frame.halted · c.index) left count)
      (Step.attempts policy c'.index once' (c'.frame.halted · c'.index) left count) := by
  induction left generalizing count with
  | zero =>
    rw [Step.attempts, Step.attempts]
    refine .note_bind rfl ?_
    apply (h.collect _ _ []).bind
    rintro ⟨x, nested⟩ ⟨y, nested'⟩ ⟨hxy, rfl⟩
    obtain ⟨v, rfl, rfl⟩ | ⟨e, e', rfl, rfl, -⟩ := hxy.elim
    · exact .done ⟨hxy, rfl, rfl⟩
    · simp only [ite_self]
      exact .done ⟨hxy, rfl, rfl⟩
  | succ left ih =>
    rw [Step.attempts, Step.attempts]
    refine .note_bind rfl ?_
    apply (h.collect _ _ []).bind
    rintro ⟨x, nested⟩ ⟨y, nested'⟩ ⟨hxy, rfl⟩
    obtain ⟨v, rfl, rfl⟩ | ⟨e, e', rfl, rfl, hfatal⟩ := hxy.elim
    · exact .done ⟨hxy, rfl, rfl⟩
    · simp only [hfatal]
      split
      · exact .done ⟨hxy, rfl, rfl⟩
      · apply Alike.pause_bind
        apply Alike.status_bind
        intro stop
        cases stop with
        | none => exact ih (count + 1)
        | some cause => exact .note_bind rfl (.done ⟨.own cause.fault, rfl, rfl⟩)

theorem once_alike (hc : c.Runs settings a bound) (hc' : c'.Runs settings a bound) (h : c.Peers c')
    (levels : Nat) :
    Alike (fun x y => c.SameOutcome c' x.1 y.1 ∧ x.2 = y.2) (c.once settings levels)
      (c'.once settings levels) :=
  (dispatch_alike hc.calls hc'.calls h levels).collect _ _ []

theorem attempts_alike (hc : c.Runs settings a bound) (hc' : c'.Runs settings a bound)
    (h : c.Peers c') (hpolicy : c.SamePolicy c') (levels : Nat) :
    Alike (c.SameAttempted c') (c.attempts settings levels) (c'.attempts settings levels) := by
  have hbackoff : Backoff.ofStep c.step settings.limits.maxRetryDelay =
      Backoff.ofStep c'.step settings.limits.maxRetryDelay := by
    rw [Backoff.ofStep, Backoff.ofStep, hpolicy.retries, hpolicy.retryDelay]
  have hbounded := bounded_alike hc.calls hc'.calls h hpolicy.timeout levels
  rw [attempts, attempts, Step.attemptAll, Step.attemptAll, hbackoff]
  exact repeat_alike hbounded _ 1

end Caller

end PageFlow
