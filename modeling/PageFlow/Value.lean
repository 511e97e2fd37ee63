import PageFlow.Json.Printer
import PageFlow.Text

namespace PageFlow

/-- A value of an expression. `undefined` is what a path yields that leads nowhere. -/
inductive Value where
  | null
  | undefined
  | bool (value : Bool)
  | number (value : Double)
  | text (value : String)
  | list (items : List Value)
  | record (fields : List (String × Value))

namespace Value

instance : Inhabited Value := ⟨undefined⟩

def typeName : Value → String
  | null => "null"
  | undefined => "undefined"
  | bool _ => "boolean"
  | number _ => "number"
  | text _ => "string"
  | list _ => "array"
  | record _ => "object"

/-- Whether a condition with this value holds. -/
def truthy : Value → Bool
  | null | undefined => false
  | bool b => b
  | number x => !x.isNaN && !x.same .zero
  | text s => s != ""
  | list _ | record _ => true

/-- The characters that numerals are made of. -/
def inNumerals (c : Char) : Bool :=
  c.isDigit || ['.', '+', '-', 'e', 'E'].contains c

/--
The number that a text spells: zero for a blank one, infinity by its name, or a numeral, with white
space around it. Any other text is no number, not even one that is a word for a number elsewhere.
-/
def numberOfText (s : List Char) : Double :=
  match Text.trim s with
  | [] => .zero
  | trimmed =>
    if trimmed = "Infinity".toList ∨ trimmed = "+Infinity".toList then .infinity false
    else if trimmed = "-Infinity".toList then .infinity true
    else if trimmed.all inNumerals && trimmed.any Char.isDigit then
      (Double.ofText? trimmed).getD .nan
    else .nan

def toNumber : Value → Double
  | number x => x
  | text s => numberOfText s.toList
  | bool true => .one
  | bool false | null => .zero
  | undefined | list _ | record _ => .nan

def isNullish : Value → Bool
  | null | undefined => true
  | _ => false

mutual

/-- Equality of kind and content; a NaN is not equal to itself, and the zeros are equal. -/
def same : Value → Value → Bool
  | null, null => true
  | undefined, undefined => true
  | bool a, bool b => a == b
  | number x, number y => x.same y
  | text s, text t => s == t
  | list as, list bs => sameItems as bs
  | record as, record bs => sameFields as bs
  | _, _ => false

def sameItems : List Value → List Value → Bool
  | [], [] => true
  | a :: as, b :: bs => a.same b && sameItems as bs
  | _, _ => false

def sameFields : List (String × Value) → List (String × Value) → Bool
  | [], [] => true
  | (k, a) :: as, (l, b) :: bs => k == l && a.same b && sameFields as bs
  | _, _ => false

end

/-- The equality of expressions: null and undefined are equal, and other kinds meet as numbers. -/
def looseEq (a b : Value) : Bool :=
  a.isNullish && b.isNullish || a.same b || a.toNumber.same b.toNumber

/-- Numbers in text are written in place from `10 ^ (-6)` to below `10 ^ 21`. -/
def numberLayout : Layout where
  least := -6
  greatest := 20
  pointed := false
  tie := .up

/-- The text of a number; zero has no sign. -/
def numberText : Double → String
  | .nan => "NaN"
  | .signed negative m =>
    if m.isFinite then
      String.ofList (numberLayout.signed (negative && m.rank != 0) m)
    else if negative then "-Infinity" else "Infinity"

/-- Whole numbers below `9 * 10 ^ 15` in magnitude become integers. -/
def wholeLimit : Nat := 9000000000000000

def numberToJson (x : Double) : Json :=
  match x.toInt? with
  | some n => if n.natAbs < wholeLimit then .int n else .ofDouble x
  | none => .ofDouble x

mutual

def toJson : Value → Json
  | null | undefined => .null
  | bool b => .bool b
  | number x => numberToJson x
  | text s => .string s
  | list items => .array (itemsToJson items)
  | record fields => .object (fieldsToJson fields)

def itemsToJson : List Value → List Json
  | [] => []
  | item :: rest => item.toJson :: itemsToJson rest

def fieldsToJson : List (String × Value) → List (String × Json)
  | [] => []
  | (key, value) :: rest => (key, value.toJson) :: fieldsToJson rest

end

mutual

def ofJson : Json → Value
  | .null => null
  | .bool b => bool b
  | .number n => number n.toDouble
  | .string s => text s
  | .array items => list (itemsOfJson items)
  | .object fields => record (fieldsOfJson fields)

def itemsOfJson : List Json → List Value
  | [] => []
  | item :: rest => ofJson item :: itemsOfJson rest

def fieldsOfJson : List (String × Json) → List (String × Value)
  | [] => []
  | (key, value) :: rest => (key, ofJson value) :: fieldsOfJson rest

end

/-- The text of a value inside other text: nothing for null, JSON for lists and records. -/
def display : Value → String
  | null | undefined => ""
  | bool b => if b then "true" else "false"
  | number x => numberText x
  | text s => s
  | v@(list _) | v@(record _) => v.toJson.compact

end Value

end PageFlow
