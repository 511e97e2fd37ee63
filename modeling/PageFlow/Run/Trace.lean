import PageFlow.Action.Definition
import PageFlow.Error

namespace PageFlow

inductive StepOutcome where
  /-- The step's condition kept it from running. -/
  | skipped
  | succeeded (value : Json)
  | failed (error : ActionError)
  /-- The step failed, and its fallback list gave a value in its stead. -/
  | rescued (value : Json) (error : ActionError)

namespace StepOutcome

def succeeds : StepOutcome → Bool
  | failed _ => false
  | skipped | succeeded _ | rescued .. => true

def isSkipped : StepOutcome → Bool
  | skipped => true
  | _ => false

def value? : StepOutcome → Option Json
  | succeeded value | rescued value _ => some value
  | skipped | failed _ => none

def error? : StepOutcome → Option ActionError
  | failed error | rescued _ error => some error
  | skipped | succeeded _ => none

end StepOutcome

structure Entry where
  index : Nat
  kind : StepKind
  attempts : Nat
  outcome : StepOutcome
  /-- The arguments of the step, where the run keeps them. -/
  args : Option (Table Json) := none
  /-- The records of the last attempt's nested action, then those of the fallback list. -/
  nested : List Entry := []

namespace Entry

mutual

def toJson : Entry → Json
  | { index, kind, attempts, outcome, args, nested } =>
    .object (
      [("index", .nat index), ("kind", .string kind.name), ("success", .bool outcome.succeeds),
        ("skipped", .bool outcome.isSkipped), ("attempts", .nat attempts)] ++
      Json.optional "output" outcome.value? ++
      Json.optional "error" (outcome.error?.map fun e => .string e.text) ++
      Json.optional "args" (args.map .object) ++
      if nested.isEmpty then [] else [("nested", .array (listToJson nested))])

def listToJson : List Entry → List Json
  | [] => []
  | entry :: rest => entry.toJson :: listToJson rest

end

end Entry

end PageFlow
