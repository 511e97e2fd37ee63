import PageFlow.Run.Result
import PageFlow.Run.Steps

namespace PageFlow.Action

/-- An action with a way to run the actions that its steps name. -/
def body (a : Action) (settings : Settings) (enter : Enter) (frame : Frame) :
    Routine (Outcome Json) := do
  Routine.note (.entered a frame)
  match ← Step.runAll settings enter frame 0 a.steps {} .null with
  | .error e => return .error e
  | .ok (progress, _) =>
    match a.conclude settings.limits frame progress with
    | .error e => Routine.raise e
    | .ok value => return .ok value

/--
The action that a `run` step names, in a frame of its own, where `run` steps may nest as deep as
there are levels left.
-/
def enter (settings : Settings) : (levels : Nat) → Enter
  | 0 => fun frame index _ _ =>
    Routine.raise (frame.error (.maxDepthExceeded settings.limits.maxDepth) (some index))
  | levels + 1 => fun frame index name params =>
    match frame.target settings.registry index name params with
    | .error e => Routine.raise e
    | .ok (a, bound) => do
      let result ← a.body settings (enter settings levels) (frame.child settings.registry a bound)
      return result.mapError (·.failRun frame.action index)

/-- An action with all the levels that the limits allow. -/
def run (a : Action) (settings : Settings) (frame : Frame) : Routine (Outcome Json) :=
  a.body settings (enter settings settings.limits.maxDepth) frame

end PageFlow.Action
