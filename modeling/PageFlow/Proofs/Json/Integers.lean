import Mathlib.Algebra.Group.Int.Defs
import PageFlow.Proofs.Number.Whole
import PageFlow.Value

namespace PageFlow

namespace Json

mutual

def numbers : Json → List Numeral
  | number n => [n]
  | array items => numbersOfItems items
  | object fields => numbersOfFields fields
  | null | bool _ | string _ => []

def numbersOfItems : List Json → List Numeral
  | [] => []
  | item :: rest => item.numbers ++ numbersOfItems rest

def numbersOfFields : List (String × Json) → List Numeral
  | [] => []
  | (_, value) :: rest => value.numbers ++ numbersOfFields rest

end

mutual

def mapNumbers (f : Numeral → Json) : Json → Json
  | number n => f n
  | array items => array (mapNumbersOfItems f items)
  | object fields => object (mapNumbersOfFields f fields)
  | null => null
  | bool b => bool b
  | string s => string s

def mapNumbersOfItems (f : Numeral → Json) : List Json → List Json
  | [] => []
  | item :: rest => item.mapNumbers f :: mapNumbersOfItems f rest

def mapNumbersOfFields (f : Numeral → Json) : List (String × Json) → List (String × Json)
  | [] => []
  | (key, value) :: rest => (key, value.mapNumbers f) :: mapNumbersOfFields f rest

end

section

variable (f g : Numeral → Json)

mutual

/-- Only what stands in the places of numbers tells two results apart. -/
theorem mapNumbers_inj : ∀ j : Json,
    j.mapNumbers f = j.mapNumbers g ↔ ∀ n ∈ j.numbers, f n = g n
  | number n => by simp [mapNumbers, numbers]
  | array items => by simpa [mapNumbers, numbers] using mapNumbersOfItems_inj items
  | object fields => by simpa [mapNumbers, numbers] using mapNumbersOfFields_inj fields
  | null | bool _ | string _ => by simp [mapNumbers, numbers]

theorem mapNumbersOfItems_inj : ∀ items : List Json,
    mapNumbersOfItems f items = mapNumbersOfItems g items ↔
      ∀ n ∈ numbersOfItems items, f n = g n
  | [] => by simp [mapNumbersOfItems, numbersOfItems]
  | item :: rest => by
    rw [mapNumbersOfItems, mapNumbersOfItems, numbersOfItems, List.cons.injEq,
      mapNumbers_inj item, mapNumbersOfItems_inj rest, List.forall_mem_append]

theorem mapNumbersOfFields_inj : ∀ fields : List (String × Json),
    mapNumbersOfFields f fields = mapNumbersOfFields g fields ↔
      ∀ n ∈ numbersOfFields fields, f n = g n
  | [] => by simp [mapNumbersOfFields, numbersOfFields]
  | (key, value) :: rest => by
    rw [mapNumbersOfFields, mapNumbersOfFields, numbersOfFields, List.cons.injEq, Prod.mk.injEq,
      mapNumbers_inj value, mapNumbersOfFields_inj rest, List.forall_mem_append]
    simp

end

end

mutual

theorem mapNumbers_number : ∀ j : Json, j.mapNumbers number = j
  | number _ => rfl
  | array items => congrArg array (mapNumbersOfItems_number items)
  | object fields => congrArg object (mapNumbersOfFields_number fields)
  | null | bool _ | string _ => rfl

theorem mapNumbersOfItems_number : ∀ items : List Json, mapNumbersOfItems number items = items
  | [] => rfl
  | item :: rest => by
    rw [mapNumbersOfItems, mapNumbers_number item, mapNumbersOfItems_number rest]

theorem mapNumbersOfFields_number : ∀ fields : List (String × Json),
    mapNumbersOfFields number fields = fields
  | [] => rfl
  | (key, value) :: rest => by
    rw [mapNumbersOfFields, mapNumbers_number value, mapNumbersOfFields_number rest]

end

theorem mapNumbers_eq_self {f : Numeral → Json} {j : Json} :
    j.mapNumbers f = j ↔ ∀ n ∈ j.numbers, f n = number n := by
  rw [← mapNumbers_inj, mapNumbers_number]

end Json

namespace Value

def rewritten (n : Numeral) : Json :=
  numberToJson n.toDouble

mutual

theorem toJson_ofJson : ∀ j : Json, (ofJson j).toJson = j.mapNumbers rewritten
  | .number _ => rfl
  | .array items => congrArg Json.array (itemsToJson_itemsOfJson items)
  | .object fields => congrArg Json.object (fieldsToJson_fieldsOfJson fields)
  | .null | .bool _ | .string _ => rfl

theorem itemsToJson_itemsOfJson : ∀ items : List Json,
    itemsToJson (itemsOfJson items) = Json.mapNumbersOfItems rewritten items
  | [] => rfl
  | item :: rest => by
    rw [itemsOfJson, itemsToJson, toJson_ofJson item, itemsToJson_itemsOfJson rest]
    rfl

theorem fieldsToJson_fieldsOfJson : ∀ fields : List (String × Json),
    fieldsToJson (fieldsOfJson fields) = Json.mapNumbersOfFields rewritten fields
  | [] => rfl
  | (key, value) :: rest => by
    rw [fieldsOfJson, fieldsToJson, toJson_ofJson value, fieldsToJson_fieldsOfJson rest]
    rfl

end

variable {n : Int}

theorem rewritten_of_lt (h : n.natAbs < wholeLimit) : rewritten (.int n) = .int n := by
  have hbits : n.natAbs < 2 ^ 53 := Nat.lt_of_lt_of_le h (by decide)
  rw [rewritten, Numeral.toDouble, numberToJson, Double.toInt?_ofInt hbits]
  exact if_pos h

theorem rewritten_of_le (hlow : wholeLimit ≤ n.natAbs) (h : n.natAbs < 2 ^ 64) :
    rewritten (.int n) = .number (.float (.ofInt n)) := by
  have hdouble : Json.ofDouble (.ofInt n) = .number (.float (.ofInt n)) :=
    if_pos (Double.isFinite_ofInt h)
  rw [rewritten, Numeral.toDouble, numberToJson, hdouble]
  cases hm : (Double.ofInt n).toInt? with
  | none => rfl
  | some m =>
    apply if_neg
    rcases Nat.lt_or_ge n.natAbs (2 ^ 53) with hbits | hbits
    · cases (Double.toInt?_ofInt hbits).symm.trans hm
      exact Nat.not_lt.2 hlow
    · have hlarge := Double.le_natAbs_toInt?_ofInt hbits h hm
      have hlimit : wholeLimit ≤ 2 ^ 53 := by decide
      omega

end Value

/-- An integer of 64 bits, with a sign or without. -/
def Numeral.IsInteger : Numeral → Prop
  | int n => -2 ^ 63 ≤ n ∧ n < 2 ^ 64
  | float _ => False

/-- What an integer is written as: itself, or the binary64 number nearest to it. -/
def Numeral.settled : Numeral → Json
  | int n => if n.natAbs < Value.wholeLimit then .int n else .number (.float (.ofInt n))
  | float x => .number (.float x)

theorem Numeral.IsInteger.rewritten_eq {n : Numeral} (h : n.IsInteger) :
    Value.rewritten n = n.settled := by
  cases n with
  | float x => exact h.elim
  | int n =>
    obtain ⟨hlow, hhigh⟩ := h
    rw [Numeral.settled]
    split
    · next hlt => exact Value.rewritten_of_lt hlt
    · next hle => exact Value.rewritten_of_le (Nat.not_lt.1 hle) (by omega)

/-- A value all of whose numbers are integers of 64 bits. -/
def Json.Integral (j : Json) : Prop :=
  ∀ n ∈ j.numbers, n.IsInteger

def Json.Small (j : Json) : Prop :=
  ∀ n, .int n ∈ j.numbers → n.natAbs < Value.wholeLimit

namespace Json.Integral

variable {j : Json}

theorem toJson_eq (h : j.Integral) : (Value.ofJson j).toJson = j.mapNumbers Numeral.settled := by
  rw [Value.toJson_ofJson, Json.mapNumbers_inj]
  exact fun n hn => (h n hn).rewritten_eq

theorem toJson_eq_self (h : j.Integral) : (Value.ofJson j).toJson = j ↔ j.Small := by
  rw [h.toJson_eq, Json.mapNumbers_eq_self]
  constructor
  · intro hsettled n hn
    have hsame := hsettled _ hn
    rw [Numeral.settled] at hsame
    split at hsame
    · next hlt => exact hlt
    · cases hsame
  · intro hsmall n hn
    cases n with
    | float x => exact (h _ hn).elim
    | int n => exact if_pos (hsmall n hn)

end Json.Integral

end PageFlow
