import PageFlow.Json.Basic

namespace PageFlow

inductive ParamType where
  | string
  | number
  | boolean
  | object
  | array
  | any
deriving DecidableEq

namespace ParamType

def name : ParamType → String
  | string => "string"
  | number => "number"
  | boolean => "boolean"
  | object => "object"
  | array => "array"
  | any => "any"

def ofName? : String → Option ParamType
  | "string" => some string
  | "number" => some number
  | "boolean" => some boolean
  | "object" => some object
  | "array" => some array
  | "any" => some any
  | _ => none

theorem ofName?_name (t : ParamType) : ofName? t.name = some t := by
  cases t <;> rfl

def accepts : ParamType → Json → Bool
  | any, _ => true
  | string, .string _ => true
  | number, .number _ => true
  | boolean, .bool _ => true
  | object, .object _ => true
  | array, .array _ => true
  | _, _ => false

end ParamType

structure ParamSpec where
  name : String
  type : ParamType := .any
  required : Bool := true
  default : Option Json := none
  description : Option String := none

/-- A condition on the final state of an action. -/
structure Check where
  condition : String
  message : Option String := none
deriving DecidableEq

/-- What a step does. -/
inductive StepKind where
  | visit
  | click
  | fill
  | type
  | press
  | wait
  | count
  | visible
  | eval
  | run
deriving DecidableEq

namespace StepKind

def name : StepKind → String
  | visit => "open"
  | click => "click"
  | fill => "fill"
  | type => "type"
  | press => "press"
  | wait => "wait"
  | count => "count"
  | visible => "visible"
  | eval => "eval"
  | run => "run"

def ofName? : String → Option StepKind
  | "open" => some visit
  | "click" => some click
  | "fill" => some fill
  | "type" => some type
  | "press" => some press
  | "wait" => some wait
  | "count" => some count
  | "visible" => some visible
  | "eval" => some eval
  | "run" => some run
  | _ => none

theorem ofName?_name (k : StepKind) : ofName? k.name = some k := by
  cases k <;> rfl

end StepKind

inductive OnError where
  | ignore
  | abort
  | fallback
deriving DecidableEq

namespace OnError

def name : OnError → String
  | ignore => "continue"
  | abort => "abort"
  | fallback => "fallback"

def ofName? : String → Option OnError
  | "continue" => some ignore
  | "abort" => some abort
  | "fallback" => some fallback
  | _ => none

theorem ofName?_name (o : OnError) : ofName? o.name = some o := by
  cases o <;> rfl

end OnError

/-- The pause after a first failed attempt, in milliseconds, where a step sets none. -/
def defaultRetryDelay : Nat := 1000

/-- One step. Its arguments may refer to variables. -/
structure Step where
  kind : StepKind
  args : List (String × Json) := []
  condition : Option String := none
  /-- The name under which the step's value is recorded. -/
  output : Option String := none
  /-- The bound on each attempt, in milliseconds. -/
  timeout : Option Nat := none
  retries : Nat := 0
  retryDelay : Nat := defaultRetryDelay
  onError : OnError := .abort
  /-- The steps that stand in for this one when it fails and `onError` asks for them. -/
  fallback : List Step := []

/-- Induction on lists of steps, with the fallback list of each. -/
theorem Step.listInduction {P : List Step → Prop} (nil : P [])
    (cons : ∀ step rest, P step.fallback → P rest → P (step :: rest)) : ∀ steps, P steps :=
  @Step.rec_1 (fun step => P step.fallback) P (fun _ _ _ _ _ _ _ _ _ ih => ih) nil
    fun step rest => cons step rest

structure Action where
  name : String
  /-- The name space, empty for an action outside of any. -/
  space : String := ""
  description : Option String := none
  params : List ParamSpec := []
  steps : List Step
  /-- The form of the result; without it the result holds every recorded value. -/
  returns : Option (Table Json) := none
  checks : List Check := []

def qualify (space name : String) : String :=
  if space = "" then name else space ++ ":" ++ name

/-- The name by which other actions find this one. -/
def Action.fullName (a : Action) : String :=
  qualify a.space a.name

end PageFlow
