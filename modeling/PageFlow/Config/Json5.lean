import PageFlow.Config.Atom
import PageFlow.Text

namespace PageFlow.Json5

def isSpace (c : Char) : Bool :=
  (Text.isBlank c && c != '\x85') || c == '\uFEFF'

def endsLine (c : Char) : Bool :=
  c == '\n' || c == '\r' || c == '\u2028' || c == '\u2029'

def startsWord (c : Char) : Bool :=
  Text.isAlphabetic c || c == '$' || c == '_'

def isWordChar (c : Char) : Bool :=
  startsWord c || Text.isNumeric c || c == '\u200C' || c == '\u200D'

/-- The character that a letter after a backslash stands for; others stand for themselves. -/
def unescape? : Char → Option Char
  | 'b' => some '\x08'
  | 'f' => some '\x0c'
  | 'n' => some '\n'
  | 'r' => some '\r'
  | 't' => some '\t'
  | 'v' => some '\x0b'
  | '0' => some '\x00'
  | c => if c.isDigit || c == 'x' || c == 'u' then none else some c

/-- The character of an escape sequence, after its backslash, and the rest. -/
def readEscape? : List Char → Option (Option Char × List Char)
  | 'x' :: a :: b :: rest =>
    (Json.unit? '0' '0' a b).map fun unit => (some (Char.ofNat unit), rest)
  | 'u' :: rest => (Json.readEscape? ('u' :: rest)).map fun (c, after) => (some c, after)
  | '\r' :: '\n' :: rest => some (none, rest)
  | c :: rest => if endsLine c then some (none, rest) else (unescape? c).map (some ·, rest)
  | [] => none

/-- The characters up to the closing quote, and the text after it. -/
def readQuoted? (quote : Char) (s : List Char) : Option (List Char × List Char) :=
  match s with
  | [] => none
  | c :: rest =>
    if c = quote then some ([], rest)
    else if c = '\\' then
      match Json.shorter (c :: rest) (readEscape? rest) with
      | none => none
      | some (char, ⟨more, h⟩) =>
        have : more.length < rest.length + 1 := h
        (readQuoted? quote more).map fun (cs, after) => (char.toList ++ cs, after)
    else if c = '\n' ∨ c = '\r' then none
    else (readQuoted? quote rest).map fun (cs, after) => (c :: cs, after)
termination_by s.length

/-- An integer of at most 32 bits in hexadecimal digits. -/
def hexadecimal? (digits : List Char) : Option Nat := do
  let values ← digits.mapM Json.hexDigit?
  let n := values.foldl (16 * · + ·) 0
  if digits.isEmpty ∨ n ≥ 1 <<< 32 then none else return n

/-- A number without its sign. Integers have 64 bits, and no zero leads another digit. -/
def unsigned? (negative : Bool) (s : List Char) : Option Numeral :=
  match s with
  | '0' :: 'x' :: digits | '0' :: 'X' :: digits =>
    if negative then none else (hexadecimal? digits).map fun n => .int n
  | _ =>
    match s.takeWhile Char.isDigit with
    | '0' :: _ :: _ => none
    | whole =>
      if whole = s then
        let n : Int := Nat.ofDigitChars 10 whole 0
        let n := if negative then -n else n
        if !s.isEmpty ∧ -(1 <<< 63 : Int) ≤ n ∧ n < (1 <<< 63 : Int) then some (.int n) else none
      else match Double.ofNumeral? (if negative then '-' :: s else s) with
        | some x => if x.isFinite then some (.float x) else none
        | none => none

/-- A numeral with its sign. -/
def numeral? (s : List Char) : Option Numeral :=
  if s = "-Infinity".toList then some (.float (.infinity true))
  else if s = "-NaN".toList then some (.float .nan)
  else match s with
    | '-' :: rest => unsigned? true rest
    | '+' :: '0' :: 'x' :: _ | '+' :: '0' :: 'X' :: _ => none
    | '+' :: rest => unsigned? false rest
    | _ => unsigned? false s

/-- One atom, or nothing for white space and comments, and what follows. -/
def next? : List Char → Option (Option Atom × List Char)
  | '/' :: '/' :: rest => some (none, rest.dropWhile (!endsLine ·))
  | '/' :: '*' :: rest => (Atom.closeComment? false 0 rest).map (none, ·)
  | [] => none
  | c :: rest =>
    if isSpace c then some (none, rest)
    else if ['[', ']', '\x7b', '\x7d', ',', ':'].contains c then some (some (.mark c), rest)
    else if c = '"' ∨ c = '\'' then
      (readQuoted? c rest).map fun (cs, after) => (some (.text (String.ofList cs)), after)
    else if startsWord c then
      let word := String.ofList (c :: rest.takeWhile isWordChar)
      some (some (.word word), rest.dropWhile isWordChar)
    else
      let numeral := c :: Atom.takeNumeral c rest
      (numeral? numeral).map fun n => (some (.number n), (c :: rest).drop numeral.length)

def wordValue? : String → Option Json
  | "null" => some .null
  | "true" => some (.bool true)
  | "false" => some (.bool false)
  | "Infinity" => some (.number (.float (.infinity false)))
  | "NaN" => some (.number (.float .nan))
  | _ => none

def key? : Atom → Option String
  | .text s | .word s => some s
  | _ => none

/-- A value and the atoms after it. Arrays and objects may be open at most `budget` deep. -/
def value? : (budget : Nat) → List Atom → Option (Json × List Atom)
  | _, .text s :: rest => some (.string s, rest)
  | _, .number n :: rest => some (.number n, rest)
  | _, .word w :: rest => (wordValue? w).map (·, rest)
  | budget + 1, .mark '[' :: rest =>
    (Atom.listOf? (value? budget) ']' rest).map fun (items, after) => (.array items, after)
  | budget + 1, .mark '\x7b' :: rest =>
    (Atom.listOf? (Atom.field? key? (value? budget)) '\x7d' rest).map fun (fields, after) =>
      (.object (Table.ofList fields), after)
  | _, _ => none

def read? (text : String) : Option (Table Json) := do
  let atoms ← Atom.all? next? text.toList
  Atom.table? (value? atoms.length) atoms

end PageFlow.Json5
