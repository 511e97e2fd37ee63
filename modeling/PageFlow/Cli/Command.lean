import PageFlow.Action.Decode
import PageFlow.Cli.Args
import PageFlow.Config.Load
import PageFlow.Plan
import PageFlow.Yaml.Reader

namespace PageFlow.Cli

/-- The three scopes that a command line can set, as JSON texts. -/
structure ScopeTexts where
  params : Option String := none
  env : Option String := none
  steps : Option String := none

inductive Command where
  | eval (source : String) (scopes : ScopeTexts)
  | tokens (source : String)
  | interpolate (text : String) (scopes : ScopeTexts)
  | plan (file : String) (action : Option String) (params env : Option String)

structure Invocation where
  config : Option String
  command : Command

def configOption : OptionSpec := { long := "config" }

def paramsOption : OptionSpec := { long := "params" }

def envOption : OptionSpec := { long := "env" }

def stepsOption : OptionSpec := { long := "steps" }

def actionOption : OptionSpec := { long := "action", short := some 'a' }

/-- The values of a subcommand with one positional value. -/
def readOne (options : List OptionSpec) (mayBeEmpty : Bool) (tokens : List String) :
    Except UsageError (String × Given) := do
  let g ← Grammar.read ⟨configOption :: options, 1, mayBeEmpty⟩ tokens
  return (g.positionals.headD "", g)

def scopesOf (g : Given) : ScopeTexts :=
  ⟨g.option? "params", g.option? "env", g.option? "steps"⟩

def Command.names : List String :=
  ["eval", "tokens", "interpolate", "plan", "help"]

def Command.read (name : String) (tokens : List String) : Except UsageError (Command × Given) :=
  match name with
  | "eval" => do
    let (source, g) ← readOne [paramsOption, envOption, stepsOption] true tokens
    return (eval source (scopesOf g), g)
  | "tokens" => do
    let (source, g) ← readOne [] true tokens
    return (Command.tokens source, g)
  | "interpolate" => do
    let (text, g) ← readOne [paramsOption, envOption] true tokens
    return (interpolate text (scopesOf g), g)
  | "plan" => do
    let (file, g) ← readOne [actionOption, paramsOption, envOption] false tokens
    return (plan file (g.option? "action") (g.option? "params") (g.option? "env"), g)
  | _ => .error (helpOn names tokens)

/-- A command line. A configuration file may be named before or after the subcommand. -/
def Invocation.read (args : List String) : Except UsageError Invocation := do
  let top : Grammar := { options := [configOption], positionals := 0 }
  let (reading, name, tokens) ← readSubcommand top Command.names args {}
  let (command, after) ← Command.read name tokens
  let before ← reading.settle top
  return ⟨(after.option? "config").or (before.option? "config"), command⟩

inductive CommandError where
  | config (error : ConfigError)
  | expression (error : ExprError)
  | badJson (flag : String)
  | notAnObject (flag given : String)
  | unreadable (file : String)
  | badText (format file : String)
  | badDefinition (file : String)
  | noDefinitions (file : String)
  | actionNotFound (name : String)
  | action (error : ActionError)
deriving DecidableEq

def CommandError.message : CommandError → String
  | config e => e.message
  | expression e => e.render
  | badJson flag => flag ++ " is not valid JSON"
  | notAnObject flag given => flag ++ " must be a JSON object, got " ++ given
  | unreadable file => "failed to read " ++ file
  | badText format file => "invalid " ++ format ++ " in " ++ file
  | badDefinition file => "invalid action definition in " ++ file
  | noDefinitions file => "no action definitions in " ++ file
  | actionNotFound name => "action '" ++ name ++ "' not found"
  | action e => e.text

/-- The object that an option spells; an empty one without the option. -/
def objectOption (flag : String) : Option String → Except CommandError (Table Json)
  | none => .ok []
  | some text =>
    match Json.read? text with
    | none => .error (.badJson flag)
    | some (.object fields) => .ok fields
    | some other => .error (.notAnObject flag other.typeName)

def ScopeTexts.values (t : ScopeTexts) : Except CommandError Variables := do
  return {
    params := valuesOf (← objectOption "--params" t.params)
    env := valuesOf (← objectOption "--env" t.env)
    steps := valuesOf (← objectOption "--steps" t.steps) }

/-- A file's format by its name: YAML, or else JSON. -/
def isYaml (file : String) : Bool :=
  Config.Format.ofPath? file = some .yaml

def formatName (file : String) : String :=
  if isYaml file then "YAML" else "JSON"

/-- The value of a text. Of YAML only what is written as JSON is read, and a blank text as null. -/
def readValue? (file text : String) : Option Json :=
  if isYaml file then (Yaml.strict.read? (Config.withoutMark text)).map (·.getD .null)
  else Json.read? text

/-- The actions of a file that holds one or a list of them. -/
def loadActions (s : Surroundings) (file : String) : Except CommandError (List Action) := do
  let some text := s.file? file | .error (.unreadable file)
  let some value := readValue? file text | .error (.badText (formatName file) file)
  let actions? := match value with
    | .array items => items.mapM Action.ofJson?
    | single => (Action.ofJson? single).map fun a => [a]
  let some actions := actions? | .error (.badDefinition file)
  if actions.isEmpty then .error (.noDefinitions file) else .ok actions

/-- The action that a name selects: the first that has it as its full or its bare name. -/
def selectAction? (actions : List Action) (name : String) : Option Action :=
  actions.find? fun a => a.fullName = name || a.name = name

/-- The action that is asked for, or else the first. -/
def chooseAction (file : String) (actions : List Action) :
    Option String → Except CommandError Action
  | none =>
    match actions with
    | a :: _ => .ok a
    | [] => .error (.noDefinitions file)
  | some name =>
    match selectAction? actions name with
    | some a => .ok a
    | none => .error (.actionNotFound name)

/-- A text filled up with blanks, before or after it. -/
def padLeft (width : Nat) (s : List Char) : List Char :=
  List.replicate (width - s.length) ' ' ++ s

def padRight (width : Nat) (s : List Char) : List Char :=
  s ++ List.replicate (width - s.length) ' '

def tokenLine (t : Token) : String :=
  String.ofList (padLeft 4 (Nat.toDigits 10 t.position) ++ [' ', ' '] ++
    padRight 12 t.kind.description.toList ++ [' ']) ++ t.value ++ "\n"

namespace Command

def run (s : Surroundings) (config : Config) : Command → Except CommandError String
  | eval source scopes => do
    let vars ← scopes.values
    let value ← (evaluate config.limits.maxExpressionDepth vars source).mapError .expression
    return value.toJson.pretty ++ "\n"
  | tokens source => do
    let ts ← (tokenize source).mapError .expression
    return String.join (ts.map tokenLine)
  | interpolate text scopes => do
    let vars ← scopes.values
    let filled ← (PageFlow.interpolate vars text).mapError .expression
    return filled ++ "\n"
  | plan file action params env => do
    let actions ← loadActions s file
    let a ← chooseAction file actions action
    let params ← objectOption "--params" params
    let env ← objectOption "--env" env
    let plan ← (a.plan (Registry.ofActions actions) config.limits (.object params)
      (.object env)).mapError .action
    return plan.toJson.pretty ++ "\n"

end Command

/-- Runs a command line. A bad configuration is reported before anything is printed. -/
def Invocation.run (s : Surroundings) (i : Invocation) : Except CommandError String := do
  let config ← (Config.load s i.config {}).mapError .config
  i.command.run s config

/-- The files that a command line may need in an environment. -/
def Invocation.files (environment : List (String × String)) (i : Invocation) : List String :=
  let command := match i.command with
    | .plan file .. => [file]
    | _ => []
  let named := i.config.toList ++ (environment.lookup Config.pathVariable).toList
  (Config.defaultName :: named).flatMap (Config.candidates default) ++ command

end PageFlow.Cli
