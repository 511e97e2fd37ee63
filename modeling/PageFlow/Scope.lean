import PageFlow.Value

namespace PageFlow

/-- The four name spaces that a path can start from. -/
inductive Scope where
  | params
  | env
  | selectors
  | steps
deriving DecidableEq

namespace Scope

def name : Scope → String
  | params => "params"
  | env => "env"
  | selectors => "selectors"
  | steps => "steps"

def ofName? : String → Option Scope
  | "params" => some params
  | "env" => some env
  | "selectors" => some selectors
  | "steps" => some steps
  | _ => none

theorem ofName?_name (s : Scope) : ofName? s.name = some s := by
  cases s <;> rfl

end Scope

structure Variables where
  params : Table Value := []
  env : Table Value := []
  selectors : Table Value := []
  steps : Table Value := []

def Variables.scope (vars : Variables) : Scope → Table Value
  | .params => vars.params
  | .env => vars.env
  | .selectors => vars.selectors
  | .steps => vars.steps

inductive PathFault where
  | unknownScope (name : String)
  | forbidden (segment : String)
deriving DecidableEq

def PathFault.message : PathFault → String
  | unknownScope name =>
    "invalid scope '" ++ name ++ "' (expected params, env, selectors or steps)"
  | forbidden segment => "access to property '" ++ segment ++ "' is not allowed"

namespace Path

/-- Segments that no path may have, at any place. -/
def forbidden : List String := ["__proto__", "constructor", "prototype"]

/-- The pieces between the dots; there is always at least one. -/
def split : List Char → List Char × List (List Char)
  | [] => ([], [])
  | c :: rest =>
    let (first, others) := split rest
    if c = '.' then ([], first :: others) else (c :: first, others)

/-- The first segment and the others. -/
def segments (path : String) : String × List String :=
  let (first, others) := split path.toList
  (String.ofList first, others.map String.ofList)

/-- A list index: digits, after at most one plus sign. -/
def index? (segment : String) : Option Nat :=
  let digits := match segment.toList with
    | '+' :: rest => rest
    | all => all
  if digits.isEmpty || !digits.all Char.isDigit then none
  else some (Nat.ofDigitChars 10 digits 0)

/-- What a value has under a segment: a part of it, a value computed from it, or nothing. -/
inductive Property where
  | part (value : Value)
  | computed (value : Value)
  | missing

def property (value : Value) (segment : String) : Property :=
  match value with
  | .record fields => (Table.get? fields segment).elim .missing .part
  | .list items =>
    if segment = "length" then .computed (.number (.ofNat items.length))
    else ((index? segment).bind fun i => items[i]?).elim .missing .part
  | .text s => if segment = "length" then .computed (.number (.ofNat s.length)) else .missing
  | _ => .missing

/-- Where segments lead from a value. A computed value ends a path. -/
def follow : Value → List String → Value
  | current, [] => current
  | current, segment :: rest =>
    match property current segment with
    | .part value => follow value rest
    | .computed value => if rest.isEmpty then value else .undefined
    | .missing => .undefined

/-- What the segments after a scope lead to; without any, it is the whole scope. -/
def lookUp (entries : Table Value) : List String → Value
  | [] => .record entries
  | key :: rest =>
    match entries.get? key with
    | some value => follow value rest
    | none => .undefined

/-- Follows a path. A forbidden segment is refused before anything is looked up. -/
def resolve (path : String) (vars : Variables) : Except PathFault Value :=
  let (first, others) := segments path
  match (first :: others).find? forbidden.contains with
  | some segment => .error (.forbidden segment)
  | none =>
    match Scope.ofName? first with
    | none => .error (.unknownScope first)
    | some scope => .ok (lookUp (vars.scope scope) others)

end Path

end PageFlow
