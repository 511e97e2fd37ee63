import PageFlow.Expr.Fault

namespace PageFlow

inductive PageError where
  | elementNotFound (selector : String)
  | selectorNotFound (selector : String)
  | timeout (ms : Nat)
  | failed (message : String)
deriving DecidableEq

def PageError.text : PageError → String
  | elementNotFound selector => "element not found: " ++ selector
  | selectorNotFound selector => "selector not found: " ++ selector
  | timeout ms => "driver timed out after " ++ natText ms ++ "ms"
  | failed message => message

inductive TimeScope where
  | step
  | action
deriving DecidableEq

def TimeScope.name : TimeScope → String
  | step => "step"
  | action => "action"

/-- What a failure consists in, where it is raised. -/
inductive ActionFault where
  | actionNotFound (name : String)
  | validation (message : String)
  | invalidArgument (message : String)
  | elementNotFound (selector : String)
  | selectorNotFound (selector : String)
  | timeout (scope : TimeScope) (ms : Nat)
  | verifyFailed (message : String)
  | expression (error : ExprError)
  | maxDepthExceeded (limit : Nat)
  | maxStepsExceeded (limit : Nat)
  | driver (message : String)
  | cancelled
deriving DecidableEq

/-- Whether retries and `onError` have a say. -/
inductive Severity where
  | fatal
  | recoverable
deriving DecidableEq

def Severity.name : Severity → String
  | fatal => "fatal"
  | recoverable => "recoverable"

namespace ActionFault

def ofPage : PageError → ActionFault
  | .elementNotFound selector => elementNotFound selector
  | .selectorNotFound selector => selectorNotFound selector
  | .timeout ms => timeout .step ms
  | .failed message => driver message

def name : ActionFault → String
  | actionNotFound _ => "action_not_found"
  | validation _ => "validation"
  | invalidArgument _ => "invalid_argument"
  | elementNotFound _ => "element_not_found"
  | selectorNotFound _ => "selector_not_found"
  | timeout .. => "timeout"
  | verifyFailed _ => "verify_failed"
  | expression _ => "expression"
  | maxDepthExceeded _ => "max_depth_exceeded"
  | maxStepsExceeded _ => "max_steps_exceeded"
  | driver _ => "driver"
  | cancelled => "cancelled"

def code : ActionFault → String
  | actionNotFound _ => "ACTION_NOT_FOUND"
  | validation _ => "VALIDATION_ERROR"
  | invalidArgument _ => "INVALID_ARGUMENT"
  | elementNotFound _ => "ELEMENT_NOT_FOUND"
  | selectorNotFound _ => "SELECTOR_NOT_FOUND"
  | timeout .. => "TIMEOUT"
  | verifyFailed _ => "VERIFY_FAILED"
  | expression _ => "EXPRESSION_ERROR"
  | maxDepthExceeded _ => "MAX_DEPTH_EXCEEDED"
  | maxStepsExceeded _ => "MAX_STEPS_EXCEEDED"
  | driver _ => "DRIVER_ERROR"
  | cancelled => "CANCELLED"

def text : ActionFault → String
  | actionNotFound name => "action '" ++ name ++ "' not found"
  | validation message => "validation failed: " ++ message
  | invalidArgument message => "invalid argument: " ++ message
  | elementNotFound selector => "element not found: " ++ selector
  | selectorNotFound selector => "selector not found: " ++ selector
  | timeout scope ms => scope.name ++ " timed out after " ++ natText ms ++ "ms"
  | verifyFailed message => "verification failed: " ++ message
  | expression error => error.text
  | maxDepthExceeded limit => "maximum nesting depth of " ++ natText limit ++ " exceeded"
  | maxStepsExceeded limit => "maximum of " ++ natText limit ++ " steps exceeded"
  | driver message => "driver error: " ++ message
  | cancelled => "execution cancelled"

def severity : ActionFault → Severity
  | actionNotFound _ | validation _ | verifyFailed _ | expression _ | maxDepthExceeded _ |
    maxStepsExceeded _ | cancelled | timeout .action _ => .fatal
  | invalidArgument _ | elementNotFound _ | selectorNotFound _ | timeout .step _ | driver _ =>
    .recoverable

/-- Faults that leave a nested action as they are. -/
def escapes : ActionFault → Bool
  | actionNotFound _ | maxDepthExceeded _ | maxStepsExceeded _ | cancelled | timeout .action _ =>
    true
  | _ => false

def detail? : ActionFault → Option Json
  | actionNotFound s | validation s | invalidArgument s | elementNotFound s | selectorNotFound s |
    verifyFailed s | driver s => some (.string s)
  | timeout scope ms => some (.object [("scope", .string scope.name), ("after_ms", .nat ms)])
  | expression e =>
    some (.object [("kind", .string e.stage.name), ("message", .string e.message),
      ("offset", .nat e.offset), ("input", .string e.source)])
  | maxDepthExceeded limit | maxStepsExceeded limit => some (.nat limit)
  | cancelled => none

end ActionFault

/-- A failure: a fault where it was raised, inside the layers that it has passed. -/
inductive ActionError where
  | raised (fault : ActionFault) (action : String) (step : Option Nat)
  | stepFailed (cause : ActionError) (action : String) (step : Nat)
deriving DecidableEq

namespace ActionError

def action : ActionError → String
  | raised _ action _ => action
  | stepFailed _ action _ => action

def step? : ActionError → Option Nat
  | raised _ _ step => step
  | stepFailed _ _ step => some step

def severity : ActionError → Severity
  | raised fault _ _ => fault.severity
  | stepFailed .. => .recoverable

def isFatal (e : ActionError) : Bool :=
  e.severity = .fatal

def escapes : ActionError → Bool
  | raised fault _ _ => fault.escapes
  | stepFailed .. => false

def code : ActionError → String
  | raised fault _ _ => fault.code
  | stepFailed .. => "STEP_FAILED"

/-- The place in the failing expression, where an expression is at fault. -/
def offset? : ActionError → Option Nat
  | raised (.expression e) _ _ => some e.offset
  | _ => none

/-- Where a failure happened, before its text. -/
def place (action : String) : Option Nat → String
  | some step => "[" ++ action ++ " step " ++ natText step ++ "] "
  | none => "[" ++ action ++ "] "

def text : ActionError → String
  | raised fault action step => place action step ++ fault.text
  | stepFailed cause action step => place action (some step) ++ "step failed: " ++ cause.text

/-- The text of what this failure comes from, if it comes from something. -/
def sourceText? : ActionError → Option String
  | raised (.expression e) _ _ => some e.text
  | raised .. => none
  | stepFailed cause _ _ => some cause.text

def toJson : ActionError → Json
  | raised fault action step =>
    .object ([("type", .string fault.name)] ++ Json.optional "detail" fault.detail? ++
      [("action", .string action)] ++ Json.optional "step" (step.map .nat))
  | stepFailed cause action step =>
    .object [("type", .string "step_failed"), ("detail", .object [("cause", cause.toJson)]),
      ("action", .string action), ("step", .nat step)]

/--
The failure that ends a step: a recoverable one gets a layer for the step, unless its outer layer is
for this very step already.
-/
def failStep (e : ActionError) (action : String) (step : Nat) : ActionError :=
  if e.isFatal then e
  else match e with
    | stepFailed _ a s => if a = action ∧ s = step then e else stepFailed e action step
    | raised .. => stepFailed e action step

/-- The failure of a `run` step whose target failed. -/
def failRun (e : ActionError) (action : String) (step : Nat) : ActionError :=
  if e.escapes then e else stepFailed e action step

end ActionError

/-- A value, or the failure that ends an action. -/
abbrev Outcome := Except ActionError

theorem Outcome.bind_eq_ok {ε α β : Type} {x : Except ε α} {f : α → Except ε β} {b : β} :
    x >>= f = .ok b ↔ ∃ a, x = .ok a ∧ f a = .ok b := by
  cases x with
  | error e => exact ⟨nofun, nofun⟩
  | ok a => exact ⟨fun h => ⟨a, rfl, h⟩, fun ⟨_, ha, h⟩ => by cases ha; exact h⟩

end PageFlow
