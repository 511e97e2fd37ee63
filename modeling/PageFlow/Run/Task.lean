import PageFlow.Json.Reader
import PageFlow.Run.Routine
import PageFlow.Scope

namespace PageFlow

/-- How an element is found: by a plain selector, or by a selector definition. -/
inductive Target where
  | plain (selector : String)
  | structured (definition : Json)

inductive PageTask where
  | visit (url : String)
  | evaluate (script : String)
  | keyboard (key : String)
  | pause (ms : Nat)
  | onElement (target : Target) (op : ElementOp)

/-- The work of one attempt at a step: on the page, or another action to run. -/
inductive Task where
  | page (task : PageTask)
  | run (name : String) (params : Json)

inductive ArgFault where
  | missing (kind : StepKind) (key : String)
  | notScalar (kind : StepKind) (key : String)
  | badSelector (kind : StepKind) (given : String)
  | badMillis (key : String)
deriving DecidableEq

namespace ArgFault

def message : ArgFault → String
  | missing kind key => kind.name ++ " step requires '" ++ key ++ "'"
  | notScalar kind key => kind.name ++ " step: '" ++ key ++ "' must be a scalar"
  | badSelector kind given =>
    kind.name ++ " step: selector must be a string or object, got " ++ given
  | badMillis key => "wait step: '" ++ key ++ "' must be a non-negative number"

def toFault (f : ArgFault) : ActionFault :=
  .invalidArgument f.message

end ArgFault

def textArg (args : Table Json) (kind : StepKind) (key : String) : Except ArgFault String :=
  match args.get? key with
  | none | some .null => .error (.missing kind key)
  | some (.array _) | some (.object _) => .error (.notScalar kind key)
  | some value => .ok (Value.ofJson value).display

/-- Whether an argument is given; null is not. -/
def hasArg (args : Table Json) (key : String) : Bool :=
  match args.get? key with
  | none | some .null => false
  | some _ => true

/-- The longest pause, in milliseconds, that 64 bits hold. -/
def longestPause : Nat := (1 <<< 64) - 1

/--
An argument as a span of time: a number that is finite and not negative, without its fraction.
-/
def millisArg (args : Table Json) (key : String) : Except ArgFault Nat :=
  let x := (((args.get? key).map Value.ofJson).getD .undefined).toNumber
  match x.truncate? with
  | some n => if x.less .zero then .error (.badMillis key) else .ok (min n.toNat longestPause)
  | none => .error (.badMillis key)

def objectText? (text : String) : Option Json :=
  match Text.trimStart text.toList with
  | '\x7b' :: _ => (Json.readObject? text).map .object
  | _ => none

/--
The target that the `selector` argument means. A text may name an entry of the selectors scope or
spell a definition; any other text is a plain selector.
-/
def targetArg (args : Table Json) (kind : StepKind) (selectors : Table Value) :
    Except ArgFault Target :=
  match args.get? "selector" with
  | none | some .null => .error (.missing kind "selector")
  | some (.object fields) => .ok (.structured (.object fields))
  | some (.string s) =>
    match selectors.get? s with
    | some (.text plain) => .ok (.plain plain)
    | some other => .ok (.structured other.toJson)
    | none =>
      match objectText? s with
      | some definition => .ok (.structured definition)
      | none => .ok (.plain s)
  | some other => .error (.badSelector kind other.typeName)

/-- The state that a `wait` step waits for when it names none. -/
def defaultWaitState : String := "visible"

def stateArg (args : Table Json) : String :=
  match args.get? "state" with
  | some (.string s) => if s = "" then defaultWaitState else s
  | _ => defaultWaitState

/-- The work on the page that a step of a kind other than `run` asks for. -/
def PageTask.ofArgs? (args : Table Json) (kind : StepKind) (selectors : Table Value)
    (timeout : Nat) : Option (Except ArgFault PageTask) :=
  let element := targetArg args kind selectors
  match kind with
  | .visit => some do return visit (← textArg args kind "url")
  | .click => some do return onElement (← element) .click
  | .fill => some do
    let value ← textArg args kind "value"
    return onElement (← element) (.fill value)
  | .type => some do
    let text ← textArg args kind "text"
    return onElement (← element) (.type text)
  | .press => some do
    let key ← textArg args kind "key"
    if hasArg args "selector" then return onElement (← element) (.press key)
    else return keyboard key
  | .wait => some do
    if hasArg args "ms" then return pause (← millisArg args "ms")
    else return onElement (← element) (.waitFor (stateArg args) timeout)
  | .count => some do return onElement (← element) .count
  | .visible => some do return onElement (← element) .visible
  | .eval => some do return evaluate (← textArg args kind "script")
  | .run => none

/-- The task of a step, within a time that the page is told. -/
def Task.ofArgs (args : Table Json) (kind : StepKind) (selectors : Table Value) (timeout : Nat) :
    Except ArgFault Task :=
  match PageTask.ofArgs? args kind selectors timeout with
  | some task => task.map page
  | none => (textArg args kind "action").map fun name =>
    run name ((args.get? "params").getD (.object []))

/-- The value of a step from what an operation on an element gives. -/
def ElementOp.value : (op : ElementOp) → op.Answer → Json
  | .count, n => .nat n
  | .visible, b => .bool b
  | .click, _ | .fill _, _ | .type _, _ | .press _, _ | .waitFor .., _ => .null

def Target.find (timeout : Nat) : Target → Routine (Except PageError Element)
  | plain selector => Routine.call (.locate selector)
  | structured definition => Routine.call (.resolve definition timeout)

/-- Carries a task out. An element is used only after it has been found. -/
def PageTask.perform (timeout : Nat) : PageTask → Routine (Except PageError Json)
  | visit url => do
    let answer ← Routine.call (.navigate url timeout)
    return answer.map fun () => .null
  | evaluate script => Routine.call (.evaluate script)
  | keyboard key => do
    let answer ← Routine.call (.keyboard key)
    return answer.map fun () => .null
  | pause ms => do
    Routine.pause ms
    return .ok .null
  | onElement target op => do
    match ← target.find timeout with
    | .error e => return .error e
    | .ok element =>
      let answer ← Routine.call (.act element op)
      return answer.map op.value

end PageFlow
