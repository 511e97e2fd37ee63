import PageFlow.Backoff
import PageFlow.Run.Frame
import PageFlow.Run.Task

namespace PageFlow

/-- Runs the action that a step at an index names, with the given parameters. -/
abbrev Enter :=
  (frame : Frame) → (index : Nat) → (name : String) → (params : Json) → Routine (Outcome Json)

structure Attempted where
  result : Outcome Json
  attempts : Nat
  /-- The records of the last attempt's nested action. -/
  nested : List Entry

namespace Step

/-- One attempt, without a limit on its time. -/
def dispatch (step : Step) (enter : Enter) (frame : Frame) (index : Nat) (args : Table Json)
    (timeout : Nat) : Routine (Outcome Json) :=
  match Task.ofArgs args step.kind frame.selectors timeout with
  | .error fault => Routine.raise (frame.error fault.toFault (some index))
  | .ok (.run name params) => enter frame index name params
  | .ok (.page task) => do
    match ← task.perform timeout with
    | .ok value => return .ok value
    | .error e => Routine.raise (frame.error (.ofPage e) (some index))

/-- The limit on an attempt. A `run` step has one only if it sets it. -/
def bound? (step : Step) (limits : Limits) : Option Nat :=
  match step.timeout, step.kind with
  | some ms, _ => some ms
  | none, .run => none
  | none, _ => some limits.stepTimeout

def bounded (step : Step) (limits : Limits) (enter : Enter) (frame : Frame) (index : Nat)
    (args : Table Json) : Routine (Outcome Json) :=
  let timeout := step.timeout.getD limits.stepTimeout
  let work := step.dispatch enter frame index args timeout
  match step.bound? limits with
  | none => work
  | some ms => do
    match ← work.within ms with
    | some result => return result
    | none => Routine.raise (frame.error (.timeout .step ms) (some index))

/--
Attempts with a pause after each that failed and may be repeated; `left` more may follow the one
with number `count`. The records of what an attempt ran are its own.
-/
def attempts (policy : Backoff) (index : Nat) (once : Routine (Outcome Json))
    (halt : Interrupt → ActionError) : (left : Nat) → (count : Nat) → Routine Attempted
  | left, count => do
    Routine.note (.attempted index count)
    let (result, nested) ← once.collect (.attempt index count) []
    match result with
    | .ok value => return ⟨.ok value, count, nested⟩
    | .error e =>
      if e.isFatal then return ⟨.error e, count, nested⟩
      else match left with
        | 0 => return ⟨.error e, count, nested⟩
        | left + 1 => do
          Routine.pause (policy.delay count)
          match ← Routine.status with
          | some cause => return ⟨← Routine.raise (halt cause), count, nested⟩
          | none => attempts policy index once halt left (count + 1)

def attemptAll (step : Step) (limits : Limits) (enter : Enter) (frame : Frame) (index : Nat)
    (args : Table Json) : Routine Attempted :=
  let policy := Backoff.ofStep step limits.maxRetryDelay
  attempts policy index (step.bounded limits enter frame index args)
    (frame.halted · index) (policy.maxAttempts - 1) 1

def unattempted (step : Step) (index : Nat) (outcome : StepOutcome) : Entry :=
  { index, kind := step.kind, attempts := 0, outcome }

/-- Records an entry and goes on with a value. -/
def record {α : Type} (entry : Entry) (result : α) : Routine α := do
  Routine.note (.recorded entry)
  return result

/-- A step that fails before its first attempt. -/
def broken {α : Type} (step : Step) (index : Nat) (e : ActionError) : Routine (Outcome α) := do
  let result ← Routine.raise e
  record (step.unattempted index (.failed e)) result

/-- What the failure of a step asks for; `rescue` runs the fallback list. -/
def recover (step : Step) (frame : Frame) (index : Nat) (entry : StepOutcome → List Entry → Entry)
    (rescue : Progress → Routine (Outcome (Progress × Json))) (e : ActionError)
    (progress : Progress) : Routine (Outcome (Progress × Option Json)) :=
  if e.isFatal then record (entry (.failed e) []) (.error (e.failStep frame.action index))
  else match step.onError with
    | .abort => record (entry (.failed e) []) (.error (e.failStep frame.action index))
    | .ignore => record (entry (.failed e) []) (.ok (progress, none))
    | .fallback => do
      match ← (rescue progress).collect (.fallback index) [] with
      | (.ok (progress, value), nested) =>
        record (entry (.rescued value e) nested)
          (.ok (progress.recordAs step.output value, some value))
      | (.error e, nested) =>
        record (entry (.failed e) nested) (.error (e.failStep frame.action index))

/-- A step whose condition lets it run. -/
def execute (step : Step) (settings : Settings) (enter : Enter) (frame : Frame) (index : Nat)
    (rescue : Progress → Routine (Outcome (Progress × Json))) (progress : Progress) :
    Routine (Outcome (Progress × Option Json)) :=
  match interpolateFields (frame.vars progress) step.args with
  | .error e =>
    step.broken index (frame.error (.expression e) (some index))
  | .ok args => do
    Routine.note (.dispatched index step.kind)
    let ended ← step.attemptAll settings.limits enter frame index args
    let entry (outcome : StepOutcome) (more : List Entry) : Entry :=
      { index, kind := step.kind, attempts := ended.attempts, outcome,
        args := if settings.debug then some args else none, nested := ended.nested ++ more }
    match ended.result with
    | .ok value =>
      record (entry (.succeeded value) [])
        (.ok (progress.recordAs step.output value, some value))
    | .error e => step.recover frame index entry rescue e progress

/--
A step from its start. Without a value it was skipped, or its failure was ignored. `rescue` runs its
fallback list.
-/
def lifecycle (step : Step) (settings : Settings) (enter : Enter) (frame : Frame) (index : Nat)
    (rescue : Progress → Routine (Outcome (Progress × Json))) (progress : Progress) :
    Routine (Outcome (Progress × Option Json)) := do
  let limits := settings.limits
  match ← Routine.status with
  | some cause => Routine.raise (frame.halted cause index)
  | none =>
    if limits.maxSteps ≤ progress.started then
      Routine.raise (frame.error (.maxStepsExceeded limits.maxSteps) (some index))
    else do
      Routine.note (.begun index step progress)
      let progress := progress.begin
      let skip := record (step.unattempted index .skipped) (.ok (progress, none))
      let go := step.execute settings enter frame index rescue progress
      match step.judge limits (frame.vars progress) with
      | .holds => go
      | .fails => skip
      | .broken e =>
        match limits.conditionErrors with
        | .proceed => go
        | .skip => skip
        | .fail =>
          step.broken index (frame.error (.expression e) (some index))

mutual

/-- One step, with its fallback list in the same action. -/
def run (settings : Settings) (enter : Enter) (frame : Frame) (index : Nat) :
    Step → Progress → Routine (Outcome (Progress × Option Json))
  | { kind, args, condition, output, timeout, retries, retryDelay, onError, fallback } =>
    let step : Step :=
      { kind, args, condition, output, timeout, retries, retryDelay, onError, fallback }
    step.lifecycle settings enter frame index fun progress =>
      runAll settings enter frame 0 fallback progress .null

/-- Steps in order from an index; the value is that of the last step that has one. -/
def runAll (settings : Settings) (enter : Enter) (frame : Frame) (index : Nat) :
    List Step → Progress → Json → Routine (Outcome (Progress × Json))
  | [], progress, last => return .ok (progress, last)
  | step :: rest, progress, last => do
    match ← run settings enter frame index step progress with
    | .error e => return .error e
    | .ok (progress, value) =>
      runAll settings enter frame (index + 1) rest progress (value.getD last)

end

end Step

end PageFlow
