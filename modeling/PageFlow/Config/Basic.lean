import PageFlow.Config.Tree
import PageFlow.Limits

namespace PageFlow

structure Config where
  limits : Limits := {}
  logLevel : String := "info"
  debugTrace : Bool := false
deriving DecidableEq

inductive ConfigError where
  | fileNotFound (path : String)
  /-- A file cannot be read as what its name says it is. -/
  | unreadable
  /-- A value is not of the type of its setting. -/
  | invalid
  | noSteps
  | noExpressionDepth
  | noTime
deriving DecidableEq

def ConfigError.message : ConfigError → String
  | fileNotFound path => "config file not found: " ++ path
  | unreadable => "Failed to load configuration"
  | invalid => "Invalid configuration"
  | noSteps => "limits.max_steps must be at least 1"
  | noExpressionDepth => "limits.max_expression_depth must be at least 1"
  | noTime => "timeouts must be greater than zero"

namespace Config

/-- The settings other than limits, by their names. -/
def loggingFields (c : Config) : List (String × Json) :=
  [("level", .string c.logLevel), ("debug_trace", .bool c.debugTrace)]

def defaults : Table Json :=
  Table.ofList [("limits", .object (Table.ofList ({} : Limits).toFields)),
    ("logging", .object (Table.ofList ({} : Config).loggingFields))]

/-- A section of a tree with the given settings; a missing one is empty. -/
def sectionOf? (tree : Table Json) (key : String) (settings : List String) : Option (Table Json) :=
  Json.Field.withDefault [] (Tree.section? settings) tree key

def limitsOf? (r : Table Json) : Option Limits := do
  let default : Limits := {}
  let nat (key : String) (n : Nat) := Json.Field.withDefault n Tree.nat? r key
  return {
    maxDepth := ← nat "max_depth" default.maxDepth
    maxSteps := ← nat "max_steps" default.maxSteps
    maxExpressionDepth := ← nat "max_expression_depth" default.maxExpressionDepth
    actionTimeout := ← nat "action_timeout_ms" default.actionTimeout
    stepTimeout := ← nat "step_timeout_ms" default.stepTimeout
    maxRetryDelay := ← nat "max_retry_delay_ms" default.maxRetryDelay
    conditionErrors := ← Json.Field.withDefault default.conditionErrors
      (fun j => (Tree.name? j).bind fun name => ConditionPolicy.ofName? (Tree.lower name)) r
      "condition_errors" }

def ofTree? (tree : Table Json) : Option Config := do
  let default : Config := {}
  let limits ← limitsOf? (← sectionOf? tree "limits" Limits.fieldNames)
  let logging ← sectionOf? tree "logging" ["level", "debug_trace"]
  return {
    limits
    logLevel := ← Json.Field.withDefault default.logLevel Tree.string? logging "level"
    debugTrace := ← Json.Field.withDefault default.debugTrace Tree.bool? logging "debug_trace" }

/-- Refuses limits under which nothing can run. -/
def validate (c : Config) : Except ConfigError Config :=
  if c.limits.maxSteps = 0 then .error .noSteps
  else if c.limits.maxExpressionDepth = 0 then .error .noExpressionDepth
  else if c.limits.actionTimeout = 0 ∨ c.limits.stepTimeout = 0 then .error .noTime
  else .ok c

def toJson (c : Config) : Json :=
  .object [("limits", .object c.limits.toFields), ("logging", .object c.loggingFields)]

end Config

end PageFlow
