import PageFlow.Config.File

namespace PageFlow.Config

/-- What variables of the environment begin with, in either case. -/
def variableStart : List Char := "pagescript_".toList

def withPoints : List Char → List Char
  | [] => []
  | '_' :: '_' :: rest => '.' :: withPoints rest
  | c :: rest => c :: withPoints rest

/-- The setting that a variable sets, if it is one of this program's. -/
def variablePath? (name : String) : Option (List Tree.Step) :=
  let low := name.toList.map Tree.lowerChar
  if variableStart.isPrefixOf low then
    some (Tree.path (String.ofList (withPoints (low.drop variableStart.length))))
  else none

def variableName (group key : String) : String :=
  "PAGESCRIPT_" ++ group.map Char.toUpper ++ "__" ++ key.map Char.toUpper

def variableNames : List String :=
  pathVariable :: (({} : Limits).toFields.map fun e => variableName "limits" e.1) ++
    (({} : Config).loggingFields.map fun e => variableName "logging" e.1)

/-- The value of a variable: a truth value, an integer, another number, or the text itself. -/
def variableValue (s : String) : Json :=
  if Tree.lower s = "true" then .bool true
  else if Tree.lower s = "false" then .bool false
  else match readInteger? s.toList with
    | some n =>
      if -(1 <<< 63 : Int) ≤ n ∧ n < (1 <<< 63 : Int) then .int n else .number (.float (.ofInt n))
    | none =>
      match Double.ofText? s.toList with
      | some x => .number (.float x)
      | none => .string s

/-- Puts the variables of the environment over a tree. -/
def addVariables (s : Surroundings) (tree : Table Json) : Table Json :=
  s.environment.foldl (fun tree (name, value) =>
    match variablePath? name with
    | some path => Tree.assign path (variableValue value) tree
    | none => tree) tree

end PageFlow.Config
