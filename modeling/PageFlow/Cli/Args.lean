namespace PageFlow.Cli

inductive UsageError where
  | help
  | nothingGiven
  | missingSubcommand
  | invalidSubcommand
  | missingRequiredArgument
  | unknownArgument
  | missingValue
  | needlessValue
  | repeatedArgument
deriving DecidableEq

def UsageError.name : UsageError → String
  | help => "DisplayHelp"
  | nothingGiven => "DisplayHelpOnMissingArgumentOrSubcommand"
  | missingSubcommand => "MissingSubcommand"
  | invalidSubcommand => "InvalidSubcommand"
  | missingRequiredArgument => "MissingRequiredArgument"
  | unknownArgument => "UnknownArgument"
  | missingValue => "InvalidValue"
  | needlessValue => "TooManyValues"
  | repeatedArgument => "ArgumentConflict"

/-- An option that takes a value. -/
structure OptionSpec where
  long : String
  short : Option Char := none

/-- What one level of the command line accepts. -/
structure Grammar where
  options : List OptionSpec
  /-- How many positional values there are; all are required. -/
  positionals : Nat
  /-- Whether a positional value may be the empty text. -/
  mayBeEmpty : Bool := true

/-- What was given: option values by the long name, and positional values. -/
structure Given where
  options : List (String × String) := []
  positionals : List String := []

def Given.option? (g : Given) (long : String) : Option String :=
  g.options.lookup long

/--
The last thing that was read, before it is checked: what is wrong with a value shows only when
the next token is accepted or the tokens end.
-/
inductive Pending where
  | option (long : String) (value : Option String)
  | positional (value : String)

/-- What was read so far. -/
structure Reading where
  given : Given := {}
  pending : Option Pending := none

def Reading.awaitsValue (r : Reading) : Bool :=
  match r.pending with
  | some (.option _ none) => true
  | _ => false

/-- Checks what was read last. An option has a value and is given once. -/
def Reading.settle (grammar : Grammar) (r : Reading) : Except UsageError Given :=
  let g := r.given
  match r.pending with
  | none => .ok g
  | some (.option _ none) => .error .missingValue
  | some (.option long (some value)) =>
    if (g.option? long).isSome then .error .repeatedArgument
    else .ok { g with options := g.options ++ [(long, value)] }
  | some (.positional value) =>
    if value = "" && !grammar.mayBeEmpty then .error .missingValue
    else .ok { g with positionals := g.positionals ++ [value] }

/-- A token that begins an option: more than a lone dash. -/
def isOption (token : String) : Bool :=
  match token.toList with
  | '-' :: _ :: _ => true
  | _ => false

/-- An option token: the option that it means, and the value if the token has one. -/
def readOption? (options : List OptionSpec) (token : String) : Option (String × Option String) :=
  match token.toList with
  | '-' :: '-' :: body =>
    let name := String.ofList (body.takeWhile (· != '='))
    let value := match body.dropWhile (· != '=') with
      | [] => none
      | _ :: value => some (String.ofList value)
    (options.find? (·.long = name)).map fun o => (o.long, value)
  | '-' :: short :: body =>
    let value := match body with
      | [] => none
      | '=' :: value => some (String.ofList value)
      | value => some (String.ofList value)
    (options.find? (·.short = some short)).map fun o => (o.long, value)
  | _ => none

/-- A request for help: the long option, or the short one with whatever follows its letter. -/
def isHelp (token : String) : Bool :=
  token = "--help" || "-h".isPrefixOf token

def Reading.addOption (grammar : Grammar) (r : Reading) (token : String) :
    Except UsageError Reading :=
  if isHelp token then do
    let _ ← r.settle grammar
    .error .help
  else if "--help=".isPrefixOf token then .error .needlessValue
  else match readOption? grammar.options token with
    | none => .error .unknownArgument
    | some (long, value) => do
      let r : Reading := { given := ← r.settle grammar, pending := some (.option long value) }
      if value.isNone then return r else return { given := ← r.settle grammar }

/-- Adds a positional value where one is still expected. -/
def Reading.addPositional (grammar : Grammar) (r : Reading) (value : String) :
    Except UsageError Reading :=
  let waiting := match r.pending with
    | some (.positional _) => 1
    | _ => 0
  if r.given.positionals.length + waiting < grammar.positionals then do
    return { given := ← r.settle grammar, pending := some (.positional value) }
  else .error .unknownArgument

def Reading.finish (grammar : Grammar) (r : Reading) : Except UsageError Given := do
  let g ← r.settle grammar
  if g.positionals.length < grammar.positionals then .error .missingRequiredArgument else return g

def readPositionals (grammar : Grammar) : List String → Reading → Except UsageError Given
  | [], r => r.finish grammar
  | token :: rest, r => do readPositionals grammar rest (← r.addPositional grammar token)

def readTokens (grammar : Grammar) : List String → Reading → Except UsageError Given
  | [], r => r.finish grammar
  | token :: rest, r =>
    if token = "--" then readPositionals grammar rest r
    else if isOption token then do readTokens grammar rest (← r.addOption grammar token)
    else match r.pending with
      | some (.option long none) =>
        readTokens grammar rest { r with pending := some (.option long (some token)) }
      | _ => do readTokens grammar rest (← r.addPositional grammar token)

def Grammar.read (grammar : Grammar) (tokens : List String) : Except UsageError Given :=
  readTokens grammar tokens {}

/-- Why there is no subcommand when the tokens end. -/
def Reading.withoutSubcommand (grammar : Grammar) (r : Reading) : UsageError :=
  match r.settle grammar with
  | .error e => e
  | .ok g => if g.options.isEmpty then .nothingGiven else .missingSubcommand

/--
Reads options up to the subcommand, which has one of the given names. Gives what was read, the
subcommand and the tokens after it. After two dashes there can be no subcommand.
-/
def readSubcommand (grammar : Grammar) (names : List String) :
    List String → Reading → Except UsageError (Reading × String × List String)
  | [], r => .error (r.withoutSubcommand grammar)
  | token :: rest, r =>
    if !r.awaitsValue && names.contains token then .ok (r, token, rest)
    else if token = "--" then
      match rest with
      | [] => .error (r.withoutSubcommand grammar)
      | next :: _ =>
        .error (if names.contains next then .unknownArgument else .invalidSubcommand)
    else if isOption token then do
      readSubcommand grammar names rest (← r.addOption grammar token)
    else match r.pending with
      | some (.option long none) =>
        readSubcommand grammar names rest { r with pending := some (.option long (some token)) }
      | _ => .error .invalidSubcommand

/-- A request for help on subcommands, which have none of their own. -/
def helpOn (names : List String) : List String → UsageError
  | [] => .help
  | [name] => if names.contains name then .help else .invalidSubcommand
  | _ => .invalidSubcommand

end PageFlow.Cli
