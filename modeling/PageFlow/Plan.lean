import PageFlow.Run.Frame

namespace PageFlow

inductive SkipReason where
  | conditionFails (condition : String)
  | conditionBroken (condition : String)
deriving DecidableEq

def SkipReason.text : SkipReason → String
  | conditionFails condition => "condition '" ++ condition ++ "' is false"
  | conditionBroken condition => "condition '" ++ condition ++ "' failed to evaluate"

/-- What could not be worked out about a step. -/
inductive PlanIssue where
  | expression (error : ExprError)
  | target (error : ActionError)
  | argument (fault : ActionFault)
deriving DecidableEq

def PlanIssue.text : PlanIssue → String
  | expression error => error.text
  | target error => error.text
  | argument fault => fault.text

mutual

structure Plan where
  action : String
  depth : Nat
  params : Table Value
  steps : List PlannedStep
  /-- The conditions that are checked after the steps. -/
  checks : List String

structure PlannedStep where
  index : Nat
  kind : StepKind
  /-- The arguments with their references put in. -/
  args : Option (List (String × Json))
  issue : Option PlanIssue
  skip : Option SkipReason
  output : Option String
  onError : OnError
  fallback : List PlannedStep
  /-- The plan of the action that the step runs. -/
  nested : Option Plan

end

/-- Plans the action that a step names with its arguments. -/
abbrev EnterPlan :=
  (frame : Frame) → (index : Nat) → (name : String) → (params : Json) → Outcome Plan

namespace Step

/-- A planned step of which nothing is known yet. -/
def blankPlan (step : Step) (index : Nat) : PlannedStep where
  index := index
  kind := step.kind
  args := none
  issue := none
  skip := none
  output := step.output
  onError := step.onError
  fallback := []
  nested := none

/-- What a planned step says about its target. A failure that a run could recover from is noted. -/
def planTarget (enter : EnterPlan) (frame : Frame) (index : Nat) (args : Table Json)
    (planned : PlannedStep) : Outcome PlannedStep :=
  match args.get? "action" with
  | some (.string name) =>
    match enter frame index name ((args.get? "params").getD (.object [])) with
    | .ok plan => .ok { planned with nested := some plan }
    | .error e => if e.isFatal then .error e else .ok { planned with issue := some (.target e) }
  | _ =>
    let fault := ActionFault.invalidArgument "run step requires 'action'"
    .ok { planned with issue := some (.argument fault) }

def planArgs (step : Step) (enter : EnterPlan) (frame : Frame) (index : Nat)
    (planned : PlannedStep) : Outcome PlannedStep :=
  match interpolateFields (frame.vars {}) step.args with
  | .error e => .ok { planned with issue := some (.expression e) }
  | .ok args => do
    let planned ←
      if step.kind = .run then planTarget enter frame index args planned else .ok planned
    return { planned with args := some args }

/--
The plan of a step that its condition lets run, and the count of steps begun after it. `rescue`
plans the fallback list, whose steps count like others.
-/
def planRun (step : Step) (enter : EnterPlan) (frame : Frame) (index : Nat)
    (rescue : Nat → Outcome (List PlannedStep × Nat)) (started : Nat) (planned : PlannedStep) :
    Outcome (PlannedStep × Nat) := do
  let planned ← step.planArgs enter frame index planned
  if step.onError = .fallback then
    let (fallback, started) ← rescue started
    return ({ planned with fallback }, started)
  else return (planned, started)

/-- A step's plan and the count of steps begun after it. -/
def planWith (step : Step) (limits : Limits) (enter : EnterPlan) (frame : Frame) (index : Nat)
    (rescue : Nat → Outcome (List PlannedStep × Nat)) (started : Nat) :
    Outcome (PlannedStep × Nat) :=
  if limits.maxSteps ≤ started then
    .error (frame.error (.maxStepsExceeded limits.maxSteps) (some index))
  else
    let started := started + 1
    let blank := step.blankPlan index
    let go := step.planRun enter frame index rescue started
    let condition := step.condition.getD ""
    match step.judge limits (frame.vars {}) with
    | .holds => go blank
    | .fails => .ok ({ blank with skip := some (.conditionFails condition) }, started)
    | .broken e =>
      let noted := { blank with issue := some (.expression e) }
      match limits.conditionErrors with
      | .proceed => go noted
      | .skip => .ok ({ noted with skip := some (.conditionBroken condition) }, started)
      | .fail => .error (frame.error (.expression e) (some index))

mutual

def plan (limits : Limits) (enter : EnterPlan) (frame : Frame) (index : Nat) :
    Step → Nat → Outcome (PlannedStep × Nat)
  | { kind, args, condition, output, timeout, retries, retryDelay, onError, fallback }, started =>
    let step : Step :=
      { kind, args, condition, output, timeout, retries, retryDelay, onError, fallback }
    step.planWith limits enter frame index (planAll limits enter frame 0 fallback) started

/-- Plans of steps in order from an index, and the count of steps begun after them. -/
def planAll (limits : Limits) (enter : EnterPlan) (frame : Frame) (index : Nat) :
    List Step → Nat → Outcome (List PlannedStep × Nat)
  | [], started => .ok ([], started)
  | step :: rest, started => do
    let (planned, started) ← plan limits enter frame index step started
    let (others, started) ← planAll limits enter frame (index + 1) rest started
    return (planned :: others, started)

end

end Step

namespace Action

/-- The plan of an action with a way to plan the actions that its steps name. -/
def planBody (a : Action) (limits : Limits) (enter : EnterPlan) (frame : Frame) : Outcome Plan := do
  let (steps, _) ← Step.planAll limits enter frame 0 a.steps 0
  return {
    action := frame.action, depth := frame.depth, params := frame.params, steps,
    checks := a.checks.map Check.condition }

/-- The plan of the action that a `run` step names, nested as deep as there are levels left. -/
def enterPlan (registry : Registry) (limits : Limits) : (levels : Nat) → EnterPlan
  | 0 => fun frame index _ _ =>
    .error (frame.error (.maxDepthExceeded limits.maxDepth) (some index))
  | levels + 1 => fun frame index name params => do
    let (a, bound) ← frame.target registry index name params
    a.planBody limits (enterPlan registry limits levels) (frame.child registry a bound)

/--
What a run would do, worked out without a page. References to recorded values lead nowhere,
since no step has run.
-/
def plan (a : Action) (registry : Registry) (limits : Limits) (params env : Json) :
    Outcome Plan := do
  let frame ← Frame.root registry a params env
  a.planBody limits (enterPlan registry limits limits.maxDepth) frame

end Action

mutual

def Plan.toJson : Plan → Json
  | { action, depth, params, steps, checks } =>
    .object (
      [("action", .string action), ("depth", .nat depth),
        ("params", .object (params.mapValues Value.toJson)),
        ("steps", .array (PlannedStep.listToJson steps))] ++
      if checks.isEmpty then [] else [("verify", .array (checks.map .string))])

def PlannedStep.toJson : PlannedStep → Json
  | { index, kind, args, issue, skip, output, onError, fallback, nested } =>
    .object (
      [("index", .nat index), ("kind", .string kind.name)] ++
      Json.optional "args" (args.map .object) ++
      Json.optional "error" (issue.map fun i => .string i.text) ++
      [("will_execute", .bool skip.isNone)] ++
      Json.optional "skip_reason" (skip.map fun r => .string r.text) ++
      Json.optional "output" (output.map .string) ++
      [("on_error", .string onError.name)] ++
      (if fallback.isEmpty then [] else [("fallback", .array (PlannedStep.listToJson fallback))]) ++
      PlannedStep.nestedFields nested)

def PlannedStep.nestedFields : Option Plan → List (String × Json)
  | none => []
  | some plan => [("nested", plan.toJson)]

def PlannedStep.listToJson : List PlannedStep → List Json
  | [] => []
  | step :: rest => step.toJson :: PlannedStep.listToJson rest

end

end PageFlow
