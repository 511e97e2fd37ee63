import PageFlow.Config.Ini
import PageFlow.Config.Json5
import PageFlow.Config.Ron
import PageFlow.Config.Toml
import PageFlow.Yaml.Reader

namespace PageFlow

/-- What follows the last point of a file's name, if something is before that point. -/
def extension? (path : String) : Option String :=
  let file := (path.toList.reverse.takeWhile (· != '/'))
  let ending := file.takeWhile (· != '.')
  match file.dropWhile (· != '.') with
  | '.' :: _ :: _ => some (String.ofList ending.reverse)
  | _ => none

namespace Config

mutual

/-- Integers that need all 64 bits without a sign become binary64. -/
def narrow : Json → Json
  | .number (.int n) => if n < (1 <<< 63 : Int) then .int n else .ofDouble (.ofInt n)
  | .array items => .array (narrowItems items)
  | .object fields => .object (narrowFields fields)
  | scalar => scalar

def narrowItems : List Json → List Json
  | [] => []
  | item :: rest => narrow item :: narrowItems rest

def narrowFields : List (String × Json) → List (String × Json)
  | [] => []
  | (key, value) :: rest => (key, narrow value) :: narrowFields rest

end

/-- A text without the byte order mark that may begin it, for formats that allow one. -/
def withoutMark (text : String) : String :=
  match text.toList with
  | '\uFEFF' :: rest => String.ofList rest
  | _ => text

inductive Format where
  | toml
  | json
  | yaml
  | ini
  | ron
  | json5
deriving DecidableEq

namespace Format

def extensions : Format → List String
  | toml => ["toml"]
  | json => ["json"]
  | yaml => ["yaml", "yml"]
  | ini => ["ini"]
  | ron => ["ron"]
  | json5 => ["json5"]

def all : List Format :=
  [toml, json, yaml, ini, ron, json5]

theorem mem_all (format : Format) : format ∈ all := by
  cases format <;> decide

/-- An order in which all formats are tried. -/
structure Order where
  formats : List Format
  complete : ∀ format, format ∈ formats

instance : Inhabited Order := ⟨all, mem_all⟩

def ofPath? (path : String) : Option Format :=
  (extension? path).bind fun e => all.find? (·.extensions.contains e)

/-- The tree of a text. Of YAML only what is written as JSON is read, and a blank text as empty. -/
def read? (format : Format) (text : String) : Option (Table Json) :=
  match format with
  | toml => Toml.read? (withoutMark text)
  | ini => Ini.read? text
  | ron => Ron.read? text
  | json5 => Json5.read? text
  | json => (Json.readObject? text).map narrowFields
  | yaml =>
    match Yaml.lenient.read? text with
    | some none => some []
    | some (some (.object fields)) => some fields
    | _ => none

end Format

end Config

end PageFlow
