import PageFlow.Action.Params
import PageFlow.Error
import PageFlow.Expr.Eval
import PageFlow.Limits
import PageFlow.Registry
import PageFlow.Template

namespace PageFlow

/-- What is the same for every action of a run. -/
structure Settings where
  registry : Registry := {}
  limits : Limits := {}
  /-- Whether the arguments of steps are recorded. -/
  debug : Bool := false

/-- What is the same for every step of an action: its name, its level and its variables. -/
structure Frame where
  action : String
  space : String
  depth : Nat
  params : Table Value
  env : Table Value
  selectors : Table Value

/-- What steps leave behind: their recorded values, and how many were started. -/
structure Progress where
  outputs : Table Value := []
  started : Nat := 0

def valuesOf (fields : Table Json) : Table Value :=
  fields.mapValues Value.ofJson

namespace Progress

/-- Records a value under a name, in place of an earlier one. -/
def record (p : Progress) (name : String) (value : Json) : Progress :=
  { p with outputs := p.outputs.insert name (.ofJson value) }

/-- Records a step's value if the step has a name for it. -/
def recordAs (p : Progress) (name : Option String) (value : Json) : Progress :=
  match name with
  | some name => p.record name value
  | none => p

def begin (p : Progress) : Progress :=
  { p with started := p.started + 1 }

def outputsJson (p : Progress) : Json :=
  .object (p.outputs.mapValues Value.toJson)

end Progress

/-- What stops a run from outside: its cancellation, or the end of the time for the whole of it. -/
inductive Interrupt where
  | cancelled
  | deadline (ms : Nat)
deriving DecidableEq

def Interrupt.fault : Interrupt → ActionFault
  | cancelled => .cancelled
  | deadline ms => .timeout .action ms

structure Status where
  elapsed : Nat
  cancelled : Bool
deriving DecidableEq

/-- What stops a run whose time is limited. -/
def Status.stop? (s : Status) (limit : Nat) : Option Interrupt :=
  if s.cancelled then some .cancelled
  else if limit ≤ s.elapsed then some (.deadline limit)
  else none

namespace Frame

def vars (f : Frame) (p : Progress) : Variables :=
  { params := f.params, env := f.env, selectors := f.selectors, steps := p.outputs }

def error (f : Frame) (fault : ActionFault) (step : Option Nat) : ActionError :=
  .raised fault f.action step

/-- The frame of an action at a level. -/
def ofAction (r : Registry) (a : Action) (depth : Nat) (params : Table Json)
    (env : Table Value) : Frame where
  action := a.fullName
  space := a.space
  depth := depth
  params := valuesOf params
  env := env
  selectors := valuesOf (r.selectorsOf a)

/-- The frame of an action that a step of this frame runs: one level deeper, in the same env. -/
def child (f : Frame) (r : Registry) (a : Action) (params : Table Json) : Frame :=
  ofAction r a (f.depth + 1) params f.env

/-- The frame of the action that a run starts with, from what its caller gives. -/
def root (r : Registry) (a : Action) (params env : Json) : Outcome Frame := do
  let bound ← (a.bindParams params).mapError fun fault =>
    .raised (.validation fault.message) a.fullName none
  let env ← match env with
    | .object fields => .ok fields
    | .null => .ok []
    | _ => .error (.raised (.validation "env must be an object") a.fullName none)
  return ofAction r a 0 bound (valuesOf env)

/-- The failure of a step that is stopped before it starts or is repeated. -/
def halted (f : Frame) (cause : Interrupt) (index : Nat) : ActionError :=
  f.error cause.fault (some index)

/-- The check that a step makes before it starts or is repeated. -/
def halt? (f : Frame) (limits : Limits) (status : Status) (index : Nat) : Option ActionError :=
  (status.stop? limits.actionTimeout).map (f.halted · index)

end Frame

inductive Verdict where
  | holds
  | fails
  | broken (error : ExprError)
deriving DecidableEq

/-- A condition with its references put in, evaluated. -/
def judge (limits : Limits) (vars : Variables) (condition : String) : Verdict :=
  match (interpolate vars condition).bind (PageFlow.holds limits.maxExpressionDepth vars) with
  | .ok true => .holds
  | .ok false => .fails
  | .error e => .broken e

/-- The verdict on a step; a step without a condition always runs. -/
def Step.judge (step : Step) (limits : Limits) (vars : Variables) : Verdict :=
  match step.condition with
  | none => .holds
  | some condition => PageFlow.judge limits vars condition

/-- The action that a `run` step names and its bound parameters, or why there is none. -/
def Frame.target (f : Frame) (r : Registry) (index : Nat) (name : String) (params : Json) :
    Outcome (Action × Table Json) :=
  match r.target? f.space name with
  | none => .error (f.error (.actionNotFound name) (some index))
  | some a =>
    match a.bindParams params with
    | .ok bound => .ok (a, bound)
    | .error fault =>
      let e := ActionError.raised (.validation fault.message) a.fullName none
      .error (e.failRun f.action index)

theorem Frame.mem_of_target {f : Frame} {r : Registry} {index : Nat} {name : String} {params : Json}
    {a : Action} {bound : Table Json} (h : f.target r index name params = .ok (a, bound)) :
    a ∈ r.actions.map Prod.snd := by
  rw [target] at h
  split at h
  · cases h
  next b hb =>
  split at h
  · cases h
    exact Registry.mem_of_target? hb
  · cases h

end PageFlow
