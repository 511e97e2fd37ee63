import PageFlow.Cli.Command

open PageFlow Cli

/-- The values of the variables that are set. -/
def readVariables (names : List String) : IO (List (String × String)) :=
  names.filterMapM fun name => do return (← IO.getEnv name).map (name, ·)

/-- The texts of the files that can be read. -/
def readFiles (names : List String) : IO (List (String × String)) :=
  names.filterMapM fun (name : String) => do
    try
      let text ← IO.FS.readFile name
      return some (name, text)
    catch _ => return none

/-- The names of what is there but is no file. -/
def findFolders (names : List String) : IO (List String) :=
  names.filterM fun (name : String) => do
    try
      let _ ← IO.FS.realPath name
      return true
    catch _ => return false

def main (args : List String) : IO UInt32 := do
  match Invocation.read args with
  | .error e =>
    IO.eprintln s!"error: {e.name}"
    return 2
  | .ok invocation =>
    let set ← readVariables Config.variableNames
    let texts ← readFiles [Config.variablesFile]
    let known : Surroundings := { file? := (texts.lookup ·), environment := set }
    let environment := (Config.withVariablesFile known).environment
    let names := invocation.files environment
    let files ← readFiles names
    let folders ← findFolders (names.filter fun name => (files.lookup name).isNone)
    match invocation.run
      { file? := (files.lookup ·), isFolder := folders.contains, environment } with
    | .ok text =>
      IO.print text
      return 0
    | .error e =>
      IO.eprintln s!"Error: {e.message}"
      return 1
