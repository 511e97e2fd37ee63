import PageFlow.Json.Record

namespace PageFlow

/-- What happens to a step whose condition cannot be evaluated. -/
inductive ConditionPolicy where
  | proceed
  | skip
  | fail
deriving DecidableEq

namespace ConditionPolicy

def name : ConditionPolicy → String
  | proceed => "proceed"
  | skip => "skip"
  | fail => "fail"

def ofName? : String → Option ConditionPolicy
  | "proceed" => some proceed
  | "skip" => some skip
  | "fail" => some fail
  | _ => none

end ConditionPolicy

/-- The bounds of a run; times are in milliseconds. -/
structure Limits where
  /-- How deep `run` steps may nest. -/
  maxDepth : Nat := 10
  /-- How many steps one run of an action may start. -/
  maxSteps : Nat := 100
  maxExpressionDepth : Nat := 50
  actionTimeout : Nat := 60000
  /-- The bound on an attempt of a step that sets none. -/
  stepTimeout : Nat := 30000
  maxRetryDelay : Nat := 30000
  conditionErrors : ConditionPolicy := .proceed
deriving DecidableEq

namespace Limits

open Json (Field.withDefault)

def fieldNames : List String :=
  ["max_depth", "max_steps", "max_expression_depth", "action_timeout_ms", "step_timeout_ms",
    "max_retry_delay_ms", "condition_errors"]

/-- Limits from a record; what is missing has its default. -/
def ofJson? (j : Json) : Option Limits := do
  let r ← Json.record? fieldNames j
  let default : Limits := {}
  let nat (key : String) (n : Nat) := Field.withDefault n (Json.natOfBits? 64) r key
  return {
    maxDepth := ← nat "max_depth" default.maxDepth
    maxSteps := ← nat "max_steps" default.maxSteps
    maxExpressionDepth := ← nat "max_expression_depth" default.maxExpressionDepth
    actionTimeout := ← nat "action_timeout_ms" default.actionTimeout
    stepTimeout := ← nat "step_timeout_ms" default.stepTimeout
    maxRetryDelay := ← nat "max_retry_delay_ms" default.maxRetryDelay
    conditionErrors := ← Field.withDefault default.conditionErrors
      (fun j => (Json.enumName? j).bind ConditionPolicy.ofName?) r "condition_errors" }

def toFields (l : Limits) : List (String × Json) :=
  [("max_depth", .nat l.maxDepth), ("max_steps", .nat l.maxSteps),
    ("max_expression_depth", .nat l.maxExpressionDepth),
    ("action_timeout_ms", .nat l.actionTimeout), ("step_timeout_ms", .nat l.stepTimeout),
    ("max_retry_delay_ms", .nat l.maxRetryDelay),
    ("condition_errors", .string l.conditionErrors.name)]

end Limits

end PageFlow
