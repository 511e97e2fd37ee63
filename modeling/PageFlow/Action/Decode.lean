import PageFlow.Action.Definition
import PageFlow.Json.Record

namespace PageFlow

open Json (Field.required Field.optional Field.withDefault record? enumName?)

def ParamSpec.fieldNames : List String :=
  ["name", "type", "required", "default", "description"]

def ParamSpec.ofJson? (j : Json) : Option ParamSpec := do
  let r ← record? fieldNames j
  return {
    name := ← Field.required Json.string? r "name"
    type := ← Field.withDefault .any (fun j => (enumName? j).bind ParamType.ofName?) r "type"
    required := ← Field.withDefault true Json.bool? r "required"
    default := ← Field.optional some r "default"
    description := ← Field.optional Json.string? r "description" }

def Check.fieldNames : List String := ["condition", "message"]

def Check.ofJson? (j : Json) : Option Check := do
  let r ← record? fieldNames j
  return {
    condition := ← Field.required Json.string? r "condition"
    message := ← Field.optional Json.string? r "message" }

namespace Step

def fieldNames : List String :=
  ["action", "args", "when", "output", "timeout", "retry", "retryDelay", "onError", "fallback"]

/-- A step from its fields, with its fallback list already read. -/
def ofFields? (r : Table Json) (fallback : List Step) : Option Step := do
  return {
    kind := ← Field.required (fun j => (enumName? j).bind StepKind.ofName?) r "action"
    args := ← Field.withDefault [] Json.object? r "args"
    condition := ← Field.optional Json.string? r "when"
    output := ← Field.optional Json.string? r "output"
    timeout := ← Field.optional (Json.natOfBits? 64) r "timeout"
    retries := ← Field.withDefault 0 (Json.natOfBits? 32) r "retry"
    retryDelay := ← Field.withDefault defaultRetryDelay (Json.natOfBits? 64) r "retryDelay"
    onError := ← Field.withDefault .abort (fun j => (enumName? j).bind OnError.ofName?) r "onError"
    fallback }

mutual

def ofJson? : Json → Option Step
  | .object fields => do ofFields? fields (← fallbackOfFields? fields)
  | .array items => do
    ofFields? (← record? fieldNames (.array items)) (← fallbackOfItems? 8 items)
  | _ => none

/-- The fallback list among named fields; none is an empty list. -/
def fallbackOfFields? : List (String × Json) → Option (List Step)
  | [] => some []
  | (key, value) :: rest =>
    if key = "fallback" then
      match value with
      | .array items => listOfJson? items
      | _ => none
    else fallbackOfFields? rest

/-- The fallback list at a place among fields in order. -/
def fallbackOfItems? : Nat → List Json → Option (List Step)
  | _, [] => some []
  | 0, value :: _ =>
    match value with
    | .array items => listOfJson? items
    | _ => none
  | n + 1, _ :: rest => fallbackOfItems? n rest

def listOfJson? : List Json → Option (List Step)
  | [] => some []
  | item :: rest => do return (← ofJson? item) :: (← listOfJson? rest)

end

end Step

namespace Action

def fieldNames : List String :=
  ["name", "namespace", "description", "params", "steps", "returns", "verify"]

def ofJson? (j : Json) : Option Action := do
  let r ← record? fieldNames j
  return {
    name := ← Field.required Json.string? r "name"
    space := ← Field.withDefault "" Json.string? r "namespace"
    description := ← Field.optional Json.string? r "description"
    params :=
      ← Field.withDefault [] (fun j => (j.array?).bind (·.mapM ParamSpec.ofJson?)) r "params"
    steps := ← Field.required (fun j => (j.array?).bind Step.listOfJson?) r "steps"
    returns := ← Field.optional Json.object? r "returns"
    checks := ← Field.withDefault [] (fun j => (j.array?).bind (·.mapM Check.ofJson?)) r "verify" }

end Action

end PageFlow
