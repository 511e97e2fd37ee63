import PageFlow.Run.Frame
import PageFlow.Run.Task

namespace PageFlow

mutual

/--
An entry of a result form: a sole reference keeps the kind of its value, and a text that spells a
JSON object after its references are put in becomes that object.
-/
def resultOf (vars : Variables) : Json → Except ExprError Json
  | .string text => do
    match ← resolvePure vars text with
    | some value => return value.toJson
    | none =>
      let rendered ← interpolate vars text
      return (objectText? rendered).getD (.string rendered)
  | .array items => (resultItems vars items).map .array
  | .object fields => (resultFields vars fields).map .object
  | scalar => .ok scalar

def resultItems (vars : Variables) : List Json → Except ExprError (List Json)
  | [] => .ok []
  | item :: rest => do
    let item ← resultOf vars item
    let rest ← resultItems vars rest
    return item :: rest

def resultFields (vars : Variables) :
    List (String × Json) → Except ExprError (List (String × Json))
  | [] => .ok []
  | (key, value) :: rest => do
    let value ← resultOf vars value
    let rest ← resultFields vars rest
    return (key, value) :: rest

end

namespace Action

/-- The result of an action: its result form filled in, or all recorded values. -/
def result (a : Action) (vars : Variables) (progress : Progress) : Except ExprError Json :=
  match a.returns with
  | none => .ok progress.outputsJson
  | some form => (resultFields vars form).map .object

def failureMessage (c : Check) : String :=
  c.message.getD ("condition '" ++ c.condition ++ "' does not hold")

/-- The first check that does not hold or cannot be evaluated. -/
def failedCheck? (limits : Limits) (vars : Variables) : List Check → Option ActionFault
  | [] => none
  | c :: rest =>
    match judge limits vars c.condition with
    | .holds => failedCheck? limits vars rest
    | .fails => some (.verifyFailed (failureMessage c))
    | .broken e => some (.expression e)

/-- What an action ends with after its steps: its result, once its checks hold. -/
def conclude (a : Action) (limits : Limits) (frame : Frame) (progress : Progress) :
    Outcome Json :=
  let vars := frame.vars progress
  match a.result vars progress with
  | .error e => .error (frame.error (.expression e) none)
  | .ok value =>
    match failedCheck? limits vars a.checks with
    | some fault => .error (frame.error fault none)
    | none => .ok value

section

variable {limits limits' : Limits} (h : limits.maxExpressionDepth = limits'.maxExpressionDepth)
include h

theorem failedCheck?_congr (vars : Variables) (checks : List Check) :
    failedCheck? limits vars checks = failedCheck? limits' vars checks := by
  induction checks with
  | nil => rfl
  | cons c rest ih => rw [failedCheck?, failedCheck?, ih, judge, judge, h]

/-- Of the limits, only the one on expressions has a say in what an action ends with. -/
theorem conclude_congr (a : Action) (frame : Frame) (progress : Progress) :
    a.conclude limits frame progress = a.conclude limits' frame progress := by
  rw [conclude, conclude, failedCheck?_congr h]

end

end Action

end PageFlow
