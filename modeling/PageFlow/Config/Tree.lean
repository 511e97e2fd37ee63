import PageFlow.Json.Printer
import PageFlow.Json.Reader
import PageFlow.Json.Record

namespace PageFlow.Tree

/-- Lower case of the ASCII letters and of the kelvin sign, which is the letter k in lower case. -/
def lowerChar (c : Char) : Char :=
  if c = '\u212A' then 'k' else c.toLower

def lower (s : String) : String :=
  String.ofList (s.toList.map lowerChar)

mutual

/--
A value over what was there before: a table adds its entries, so that an empty one changes nothing,
and all else takes the place. The names of entries become lower case.
-/
def merge : Json → Option Json → Json
  | .object fields, some (.object old) => .object (mergeFields fields old)
  | .object [], some old => old
  | .object fields, _ => .object (mergeFields fields [])
  | value, _ => value

def mergeFields : List (String × Json) → Table Json → Table Json
  | [], old => old
  | (key, value) :: rest, old =>
    mergeFields rest (old.insert (lower key) (merge value (old.get? (lower key))))

end

/-- A step into a tree: to an entry of a table, or to an item of an array. -/
inductive Step where
  | entry (key : String)
  | item (index : Int)
deriving DecidableEq

namespace Step

/-- What the name of an entry may consist of for a step. -/
def isKeyChar (c : Char) : Bool :=
  c.isAlphanum || c == ' ' || c == '_' || c == '-'

def isSpace (c : Char) : Bool :=
  c == ' ' || c == '\t'

/-- An index of 64 bits: digits after an optional minus sign, with white space around them. -/
def index? (s : List Char) : Option Int :=
  let word := ((s.dropWhile isSpace).reverse.dropWhile isSpace).reverse
  let (negative, digits) := match word with
    | '-' :: rest => (true, rest)
    | all => (false, all)
  if digits.isEmpty || !digits.all Char.isDigit then none
  else
    let n : Int := Nat.ofDigitChars 10 digits 0
    let n := if negative then -n else n
    if -(1 <<< 63 : Int) ≤ n ∧ n < (1 <<< 63 : Int) then some n else none

/-- A step as it is written, a point and a name or an index in brackets, and what follows. -/
def next? : List Char → Option (Step × List Char)
  | '.' :: rest =>
    match rest.takeWhile isKeyChar with
    | [] => none
    | key => some (entry (lower (String.ofList key)), rest.dropWhile isKeyChar)
  | '[' :: rest =>
    match rest.dropWhile (· != ']') with
    | [] => none
    | _ :: more => (index? (rest.takeWhile (· != ']'))).map (item ·, more)
  | _ => none

/-- The steps of a text that holds nothing else. -/
def read? (s : List Char) : Option (List Step) :=
  match s with
  | [] => some []
  | c :: cs =>
    match Json.shorter (c :: cs) (next? (c :: cs)) with
    | none => none
    | some (step, ⟨rest, h⟩) =>
      have : rest.length < cs.length + 1 := h
      (read? rest).map (step :: ·)
termination_by s.length

end Step

/-- The steps that a name stands for. A name that spells none is the name of an entry. -/
def path (name : String) : List Step :=
  (Step.read? ('.' :: name.toList)).getD [.entry (lower name)]

/-- The entries of a value; there are none unless it is a table. -/
def entriesOf : Option Json → Table Json
  | some (.object fields) => fields
  | _ => []

/-- The items of a value; there are none unless it is an array. -/
def itemsOf : Option Json → List Json
  | some (.array items) => items
  | _ => []

/-- The place of an index, which counts from the end when it is negative. -/
def place (index : Int) (size : Nat) : Nat :=
  match index with
  | .ofNat i => i
  | .negSucc i => size - (i + 1)

/-- An item at a place, with nulls before it where there was nothing. -/
def setItem (items : List Json) (place : Nat) (value : Json) : List Json :=
  items.take place ++ List.replicate (place - items.length) .null ++ value :: items.drop (place + 1)

/--
A value at the end of some steps. What is on the way becomes a table or an array if it is none, and
an item is replaced as a whole.
-/
def put (value : Json) : List Step → Option Json → Json
  | [], old => merge value old
  | .entry key :: rest, old =>
    let fields := entriesOf old
    .object (fields.insert key (put value rest (fields.get? key)))
  | [.item index], old =>
    let items := itemsOf old
    .array (setItem items (place index items.length) value)
  | .item index :: rest, old =>
    let items := itemsOf old
    let place := place index items.length
    .array (setItem items place (put value rest items[place]?))

def assign (steps : List Step) (value : Json) (tree : Table Json) : Table Json :=
  entriesOf (some (put value steps (some (.object tree))))

/-- The entries of a tree over another; a name at the top may stand for steps. -/
def addAll (entries : List (String × Json)) (tree : Table Json) : Table Json :=
  entries.foldl (fun tree e => assign (path e.1) e.2 tree) tree

/-- A section: a table, or the values of its settings in order. -/
def section? (settings : List String) : Json → Option (Table Json)
  | .object fields => some fields
  | .array items => some (settings.zip items)
  | _ => none

/-- A switch by its spelling, in either case. -/
def switch? (s : String) : Option Bool :=
  match lower s with
  | "true" | "on" | "yes" => some true
  | "false" | "off" | "no" => some false
  | _ => none

/-- The largest number of 64 bits. -/
def natLimit : Nat := (1 <<< 64) - 1

/-- The natural number nearest to a binary64 number, halves away from zero, within 64 bits. -/
def roundedNat : Double → Nat
  | .nan => 0
  | .signed negative m =>
    if negative then 0
    else if m.isFinite then min ((m.units + (1 <<< 1073)) >>> 1074) natLimit
    else natLimit

/-- A value as a natural number of 64 bits. -/
def nat? : Json → Option Nat
  | .number (.int n) => if 0 ≤ n ∧ n ≤ natLimit then some n.toNat else none
  | .number (.float x) => some (roundedNat x)
  | .bool b => some b.toNat
  | .string s =>
    match switch? s with
    | some b => some b.toNat
    | none =>
      match s.toList with
      | '-' :: _ => none
      | _ => (readInteger? s.toList).bind fun n => if n ≤ natLimit then some n.toNat else none
  | _ => none

/-- Numbers as text are written in place, however long that is. -/
def numberLayout : Layout where
  least := -400
  greatest := 400
  pointed := false
  tie := .up

def numberText : Double → String
  | .nan => "NaN"
  | .signed negative m =>
    if m.isFinite then String.ofList (numberLayout.signed negative m)
    else if negative then "-inf" else "inf"

def string? : Json → Option String
  | .string s => some s
  | .bool b => some (if b then "true" else "false")
  | .number (.int n) => some (String.ofList (Numeral.int n).text)
  | .number (.float x) => some (numberText x)
  | _ => none

def bool? : Json → Option Bool
  | .bool b => some b
  | .number n => some (!n.toDouble.same .zero)
  | .string s => if s = "1" then some true else if s = "0" then some false else switch? s
  | _ => none

/-- A value as a name: a text, or a table with one entry of that name. -/
def name? : Json → Option String
  | .string s => some s
  | .object [(name, _)] => some name
  | _ => none

end PageFlow.Tree
