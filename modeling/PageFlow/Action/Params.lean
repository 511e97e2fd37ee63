import PageFlow.Action.Definition

namespace PageFlow

inductive ParamFault where
  | notAnObject (given : String)
  | wrongType (name : String) (declared : ParamType) (given : String)
  | missing (name : String)
deriving DecidableEq

def ParamFault.message : ParamFault → String
  | notAnObject given => "params must be an object, got " ++ given
  | wrongType name declared given =>
    "param '" ++ name ++ "' must be " ++ declared.name ++ ", got " ++ given
  | missing name => "missing required param '" ++ name ++ "'"

/-- The value given for a name; null counts as none. -/
def given? (bound : Table Json) (name : String) : Option Json :=
  match bound.get? name with
  | some .null => none
  | other => other

/-- Settles one parameter among those bound so far. -/
def ParamSpec.bind (spec : ParamSpec) (bound : Table Json) : Except ParamFault (Table Json) :=
  match given? bound spec.name, spec.default with
  | some value, _ =>
    if spec.type.accepts value then .ok bound
    else .error (.wrongType spec.name spec.type value.typeName)
  | none, some default => .ok (bound.insert spec.name default)
  | none, none => if spec.required then .error (.missing spec.name) else .ok bound

/-- Settles the parameters in the order of their declaration. -/
def ParamSpec.bindAll : List ParamSpec → Table Json → Except ParamFault (Table Json)
  | [], bound => .ok bound
  | spec :: rest, bound => do bindAll rest (← spec.bind bound)

/-- The parameters of a run from what its caller gives; null gives none. -/
def Action.bindParams (a : Action) : Json → Except ParamFault (Table Json)
  | .object fields => ParamSpec.bindAll a.params fields
  | .null => ParamSpec.bindAll a.params []
  | other => .error (.notAnObject other.typeName)

end PageFlow
