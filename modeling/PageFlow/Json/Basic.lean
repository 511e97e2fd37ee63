import PageFlow.Number.Double
import PageFlow.Table

namespace PageFlow

/-- A number as JSON text writes it. -/
inductive Numeral where
  | int (value : Int)
  | float (value : Double)
deriving DecidableEq

namespace Numeral

def toDouble : Numeral → Double
  | int n => .ofInt n
  | float x => x

end Numeral

/-- A JSON value. Fields keep the order in which they are written. -/
inductive Json where
  | null
  | bool (value : Bool)
  | number (value : Numeral)
  | string (value : String)
  | array (items : List Json)
  | object (fields : List (String × Json))

namespace Json

instance : Inhabited Json := ⟨null⟩

def int (n : Int) : Json := number (.int n)

def nat (n : Nat) : Json := int n

/-- A number of its binary64 kind; what is not finite has no JSON form and becomes null. -/
def ofDouble (x : Double) : Json :=
  if x.isFinite then number (.float x) else null

def typeName : Json → String
  | null => "null"
  | bool _ => "boolean"
  | number _ => "number"
  | string _ => "string"
  | array _ => "array"
  | object _ => "object"

/-- A field that is written only when there is a value for it. -/
def optional (key : String) : Option Json → List (String × Json)
  | none => []
  | some value => [(key, value)]

mutual

/-- How many arrays and objects are open around the innermost value, itself counted. -/
def depth : Json → Nat
  | array items => 1 + depthOfItems items
  | object fields => 1 + depthOfFields fields
  | _ => 0

def depthOfItems : List Json → Nat
  | [] => 0
  | item :: rest => max item.depth (depthOfItems rest)

def depthOfFields : List (String × Json) → Nat
  | [] => 0
  | (_, value) :: rest => max value.depth (depthOfFields rest)

end

end Json

end PageFlow
