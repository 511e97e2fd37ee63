import PageFlow.Proofs.Routine.History
import PageFlow.Proofs.Run.Follow

namespace PageFlow

inductive Goes (settings : Settings) (a : Action) (params env : Json) (es : List Event)
    (report : Report) : Prop
  /-- The parameters are refused, and nothing happens. -/
  | unbound {e : ActionError} (root : Frame.root settings.registry a params env = .error e)
    (events : es = []) (reported : report = { result := .error e })
  | ended {frame : Frame} {result : Outcome Json}
    (root : Frame.root settings.registry a params env = .ok frame)
    (course : Course settings (.action settings.limits.maxDepth frame a) es (some result))
    (result : report.result = result) (trace : report.trace = entriesOf es)
  /-- The run is cut short in a pause. -/
  | interrupted {frame : Frame} {cause : Interrupt} {e : ActionError} {trace : List Entry}
    (root : Frame.root settings.registry a params env = .ok frame)
    (course : Course settings (.action settings.limits.maxDepth frame a) es none)
    (stops : cause = .cancelled ∨ cause = .deadline settings.limits.actionTimeout)
    (ledger : (Ledger.after {} es).interrupted cause.fault frame = (e, trace))
    (result : report.result = .error e) (trace : report.trace = trace)

variable {σ : Type}

def Frame.report (frame : Frame) : Except Interrupt (Outcome Json) × Moment σ → Report
  | (.ok result, m) => ⟨result, m.ledger.entries, m.calls, m.now⟩
  | (.error cause, m) =>
    let (e, trace) := m.ledger.interrupted cause.fault frame
    ⟨.error e, trace, m.calls, m.now⟩

theorem Goes.of_races {settings : Settings} {page : Page σ} {state : σ}
    {cancellation : Cancellation} {a : Action} {params env : Json} {frame : Frame} {es : List Event}
    {ended : Except Interrupt (Outcome Json) × Moment σ}
    (root : Frame.root settings.registry a params env = .ok frame)
    (race : (a.run settings frame).Races page
      { cancellation with deadline := settings.limits.actionTimeout } { page := state } es ended) :
    Goes settings a params env es (frame.report ended) := by
  have hcourse := (Action.run_follows settings a frame).of_races race
  have hledger := race.ledger
  obtain ⟨cause | result, m⟩ := ended
  · have hleft := congrArg (Ledger.interrupted · cause.fault frame) hledger
    exact .interrupted root hcourse (race.cause_eq rfl) hleft.symm rfl rfl
  · refine .ended root hcourse rfl ?_
    change m.ledger.entries = _
    rw [hledger, Ledger.after_entries]
    rfl

/-- A run starts in a frame of its action at the top level. -/
theorem Frame.root_eq {r : Registry} {a : Action} {params env : Json} {frame : Frame}
    (h : Frame.root r a params env = .ok frame) :
    ∃ bound env, frame = Frame.ofAction r a 0 bound env := by
  rw [Frame.root] at h
  cases hb : a.bindParams params with
  | error fault =>
    rw [hb] at h
    cases h
  | ok bound =>
    rw [hb] at h
    cases env <;> cases h <;> exact ⟨_, _, rfl⟩

theorem Frame.root_action {r : Registry} {a : Action} {params env : Json} {frame : Frame}
    (h : Frame.root r a params env = .ok frame) : frame.action = a.fullName := by
  obtain ⟨bound, env, rfl⟩ := Frame.root_eq h
  rfl

theorem Frame.root_depth {r : Registry} {a : Action} {params env : Json} {frame : Frame}
    (h : Frame.root r a params env = .ok frame) : frame.depth = 0 := by
  obtain ⟨bound, env, rfl⟩ := Frame.root_eq h
  rfl

theorem Frame.root_error {r : Registry} {a : Action} {params env : Json} {e : ActionError}
    (h : Frame.root r a params env = .error e) :
    ∃ message, e = .raised (.validation message) a.fullName none := by
  rw [Frame.root] at h
  cases hb : a.bindParams params with
  | error fault =>
    rw [hb] at h
    cases h
    exact ⟨_, rfl⟩
  | ok bound =>
    rw [hb] at h
    cases env <;> cases h <;> exact ⟨_, rfl⟩

theorem Ledger.interrupted_error (l : Ledger) (fault : ActionFault) (frame : Frame) :
    ∃ step, (l.interrupted fault frame).1 = frame.error fault step := by
  rw [Ledger.interrupted]
  cases l.inFlight with
  | none => exact ⟨none, rfl⟩
  | some f => exact ⟨some f.index, rfl⟩

section

variable {settings : Settings} (page : Page σ) (state : σ) (cancellation : Cancellation)
  {a : Action} {params env : Json}

theorem execute_unbound {e : ActionError}
    (h : Frame.root settings.registry a params env = .error e) :
    execute settings page state cancellation a params env = ({ result := .error e }, state) := by
  rw [execute]
  rw [h]

theorem execute_bound {frame : Frame} (h : Frame.root settings.registry a params env = .ok frame) :
    execute settings page state cancellation a params env =
      let run := (a.run settings frame).run page
        { cancellation with deadline := settings.limits.actionTimeout } { page := state }
      (frame.report run, run.2.page) := by
  unfold execute Frame.report
  rw [h]
  dsimp only
  split <;> rename_i hrun <;> rw [hrun]

theorem history_bound {frame : Frame} (h : Frame.root settings.registry a params env = .ok frame) :
    history settings page state cancellation a params env = (a.run settings frame).asked page
      { cancellation with deadline := settings.limits.actionTimeout } { page := state } := by
  rw [history]
  rw [h]

theorem Frame.report_elapsed (frame : Frame) (run : Except Interrupt (Outcome Json) × Moment σ) :
    (frame.report run).elapsed = run.2.now := by
  obtain ⟨cause | result, m⟩ := run <;> rfl

theorem Frame.report_calls (frame : Frame) (run : Except Interrupt (Outcome Json) × Moment σ) :
    (frame.report run).calls = run.2.calls := by
  obtain ⟨cause | result, m⟩ := run <;> rfl

theorem execute_calls (settings : Settings) (a : Action) (params env : Json) :
    (execute settings page state cancellation a params env).1.calls =
      callsOf (history settings page state cancellation a params env) := by
  cases hroot : Frame.root settings.registry a params env with
  | error e =>
    rw [execute_unbound page state cancellation hroot, history, hroot]
    rfl
  | ok frame =>
    rw [execute_bound page state cancellation hroot, history_bound page state cancellation hroot]
    exact (frame.report_calls _).trans (Routine.run_calls ..)

end

theorem execute_goes (settings : Settings) (page : Page σ) (state : σ)
    (cancellation : Cancellation) (a : Action) (params env : Json) :
    Goes settings a params env (eventsOf (history settings page state cancellation a params env))
      (execute settings page state cancellation a params env).1 := by
  cases hroot : Frame.root settings.registry a params env with
  | error e =>
    rw [execute_unbound page state cancellation hroot, history, hroot]
    exact .unbound hroot rfl rfl
  | ok frame =>
    rw [execute_bound page state cancellation hroot, history_bound page state cancellation hroot]
    exact .of_races hroot (Routine.races_run ..)

end PageFlow
