import PageFlow.Json.Basic

namespace PageFlow.Json

def record? (names : List String) : Json → Option (Table Json)
  | object fields => some fields
  | array items => if items.length ≤ names.length then some (names.zip items) else none
  | _ => none

/-- The name of an enumerated value: a string, or an object whose only field is null. -/
def enumName? : Json → Option String
  | string name => some name
  | object [(name, null)] => some name
  | _ => none

def string? : Json → Option String
  | string s => some s
  | _ => none

def bool? : Json → Option Bool
  | bool b => some b
  | _ => none

def object? : Json → Option (Table Json)
  | object fields => some fields
  | _ => none

def array? : Json → Option (List Json)
  | array items => some items
  | _ => none

/-- A natural number of at most the given count of bits. -/
def natOfBits? (bits : Nat) : Json → Option Nat
  | number (.int n) => if 0 ≤ n ∧ n < 1 <<< bits then some n.toNat else none
  | _ => none

namespace Field

variable {α : Type}

/-- A field that has to be there. -/
def required (read : Json → Option α) (fields : Table Json) (key : String) : Option α :=
  (fields.get? key).bind read

/-- A field that may be missing or null. -/
def optional (read : Json → Option α) (fields : Table Json) (key : String) : Option (Option α) :=
  match fields.get? key with
  | none | some null => some none
  | some value => (read value).map some

/-- A field that has a value of its own when it is missing; null is no value. -/
def withDefault (default : α) (read : Json → Option α) (fields : Table Json) (key : String) :
    Option α :=
  match fields.get? key with
  | none => some default
  | some value => read value

end Field

end PageFlow.Json
