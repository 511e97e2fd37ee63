import PageFlow.Config.Basic
import PageFlow.Config.EnvFile
import PageFlow.Config.Format

namespace PageFlow

/-- Files and folders by name, and the variables of the environment with their values. -/
structure Surroundings where
  file? : String → Option String := fun _ => none
  isFolder : String → Bool := fun _ => false
  environment : List (String × String) := []
  /-- In which order the formats of a file are tried that is named without one. -/
  order : Config.Format.Order := default

def Surroundings.value? (s : Surroundings) (name : String) : Option String :=
  s.environment.lookup name

namespace Config

def pathVariable : String := "PAGESCRIPT_CONFIG_PATH"

/-- The name that a file has if none is named, apart from its extension. -/
def defaultName : String := "pagescript"

def variablesFile : String := ".env"

/-- The names under which a file is looked for: its own, and those with an extension of a format. -/
def candidates (order : Format.Order) (name : String) : List String :=
  name :: (order.formats.flatMap Format.extensions).map fun e => name ++ "." ++ e

/-- The first file under a name, with its own. -/
def findFile? (s : Surroundings) (name : String) : Option (String × String) :=
  (candidates s.order name).findSome? fun path => (s.file? path).map (path, ·)

def readFile (path text : String) : Except ConfigError (Table Json) :=
  match (Format.ofPath? path).bind fun format => format.read? text with
  | some tree => .ok tree
  | none => .error .unreadable

/--
The tree of the file that is named, which has to be there, or else of the default one. A default
file of no format counts as none.
-/
def fileLayer (s : Surroundings) (path : Option String) : Except ConfigError (Table Json) :=
  match path.or (s.value? pathVariable) with
  | some path =>
    if (s.file? path).isNone ∧ !s.isFolder path then .error (.fileNotFound path)
    else match findFile? s path with
      | some (path, text) => readFile path text
      | none => .error .unreadable
  | none =>
    match findFile? s defaultName with
    | some (path, text) => if (Format.ofPath? path).isNone then .ok [] else readFile path text
    | none => .ok []

/-- The surroundings with the variables of a file for them. -/
def withVariablesFile (s : Surroundings) : Surroundings :=
  match s.file? variablesFile with
  | some text => { s with environment := EnvFile.addTo s.environment (withoutMark text) }
  | none => s

end Config

end PageFlow
