import PageFlow.Config.Environment

namespace PageFlow.Config

/-- Settings that go over all others. -/
structure Overrides where
  maxDepth : Option Nat := none
  maxSteps : Option Nat := none
  actionTimeout : Option Nat := none
  logLevel : Option String := none
  debugTrace : Option Bool := none

namespace Overrides

def entries (o : Overrides) : List (List Tree.Step × Json) :=
  let path (group key : String) := [Tree.Step.entry group, Tree.Step.entry key]
  (o.maxDepth.map fun n => (path "limits" "max_depth", Json.nat n)).toList ++
  (o.maxSteps.map fun n => (path "limits" "max_steps", Json.nat n)).toList ++
  (o.actionTimeout.map fun n => (path "limits" "action_timeout_ms", Json.nat n)).toList ++
  (o.logLevel.map fun s => (path "logging" "level", Json.string s)).toList ++
  (o.debugTrace.map fun b => (path "logging" "debug_trace", Json.bool b)).toList

def add (o : Overrides) (tree : Table Json) : Table Json :=
  o.entries.foldl (fun tree (path, value) => Tree.assign path value tree) tree

end Overrides

/--
The configuration in its surroundings, with a file that may be named and explicit settings.
Defaults, the file, the environment and the explicit settings are laid over one another, and values
are converted and checked at the end.
-/
def load (s : Surroundings) (path : Option String) (overrides : Overrides) :
    Except ConfigError Config :=
  let s := withVariablesFile s
  match fileLayer s path with
  | .error e => .error e
  | .ok file =>
    let tree := overrides.add (addVariables s (Tree.addAll file defaults))
    match ofTree? tree with
    | some c => c.validate
    | none => .error .invalid

end PageFlow.Config
