import PageFlow.Action.Definition

namespace PageFlow

open Json (optional)

def ParamSpec.toJson (p : ParamSpec) : Json :=
  .object (
    [("name", .string p.name), ("type", .string p.type.name), ("required", .bool p.required)] ++
    optional "default" p.default ++
    optional "description" (p.description.map .string))

def Check.toJson (c : Check) : Json :=
  .object ([("condition", .string c.condition)] ++ optional "message" (c.message.map .string))

namespace Step

mutual

def toJson : Step → Json
  | { kind, args, condition, output, timeout, retries, retryDelay, onError, fallback } =>
    .object (
      [("action", .string kind.name), ("args", .object args)] ++
      optional "when" (condition.map .string) ++
      optional "output" (output.map .string) ++
      optional "timeout" (timeout.map .nat) ++
      [("retry", .nat retries), ("retryDelay", .nat retryDelay), ("onError", .string onError.name)]
      ++ if fallback.isEmpty then [] else [("fallback", .array (listToJson fallback))])

def listToJson : List Step → List Json
  | [] => []
  | step :: rest => step.toJson :: listToJson rest

end

end Step

def Action.toJson (a : Action) : Json :=
  .object (
    [("name", .string a.name), ("namespace", .string a.space)] ++
    optional "description" (a.description.map .string) ++
    [("params", .array (a.params.map ParamSpec.toJson)),
      ("steps", .array (Step.listToJson a.steps))] ++
    optional "returns" (a.returns.map .object) ++
    if a.checks.isEmpty then [] else [("verify", .array (a.checks.map Check.toJson))])

end PageFlow
