import PageFlow.Json.Number
import PageFlow.Text

namespace PageFlow.Json

def isSpace (c : Char) : Bool :=
  c == ' ' || c == '\n' || c == '\t' || c == '\r'

def skipSpace (s : List Char) : List Char :=
  s.dropWhile isSpace

def hexDigit? (c : Char) : Option Nat :=
  if '0' ≤ c ∧ c ≤ '9' then some (c.toNat - '0'.toNat)
  else if 'a' ≤ c ∧ c ≤ 'f' then some (c.toNat - 'a'.toNat + 10)
  else if 'A' ≤ c ∧ c ≤ 'F' then some (c.toNat - 'A'.toNat + 10)
  else none

/-- The 16-bit unit of four hexadecimal digits. -/
def unit? (a b c d : Char) : Option Nat := do
  return (((← hexDigit? a) * 16 + (← hexDigit? b)) * 16 + (← hexDigit? c)) * 16 + (← hexDigit? d)

/-- The character of a unit that needs no partner. -/
def lone? (unit : Nat) : Option Char :=
  if 0xD800 ≤ unit ∧ unit < 0xE000 then none else some (Char.ofNat unit)

/-- The character of a high unit followed by a low one. -/
def pair? (high low : Nat) : Option Char :=
  if 0xD800 ≤ high ∧ high < 0xDC00 ∧ 0xDC00 ≤ low ∧ low < 0xE000 then
    some (Char.ofNat (0x10000 + (high - 0xD800) * 0x400 + (low - 0xDC00)))
  else none

def unescape? : Char → Option Char
  | '"' => some '"'
  | '\\' => some '\\'
  | '/' => some '/'
  | 'b' => some '\x08'
  | 'f' => some '\x0c'
  | 'n' => some '\n'
  | 'r' => some '\r'
  | 't' => some '\t'
  | _ => none

/-- The character of an escape sequence, after its backslash, and the rest. -/
def readEscape? : List Char → Option (Char × List Char)
  | 'u' :: a :: b :: c :: d :: rest =>
    match unit? a b c d with
    | none => none
    | some high =>
      match lone? high, rest with
      | some char, rest => some (char, rest)
      | none, '\\' :: 'u' :: a' :: b' :: c' :: d' :: rest' =>
        ((unit? a' b' c' d').bind (pair? high)).map (·, rest')
      | none, _ => none
  | c :: rest => (unescape? c).map (·, rest)
  | [] => none

theorem readEscape?_length {s rest : List Char} {c : Char} (h : readEscape? s = some (c, rest)) :
    rest.length < s.length := by
  unfold readEscape? at h
  split at h
  · split at h
    · cases h
    split at h
    · cases h; simp only [List.length_cons]; omega
    · obtain ⟨x, -, hx⟩ := Option.map_eq_some_iff.1 h
      cases hx; simp only [List.length_cons]; omega
    · cases h
  · obtain ⟨x, -, hx⟩ := Option.map_eq_some_iff.1 h
    cases hx; simp
  · cases h

/-- The characters up to the closing quote, and the text after it. -/
def readQuoted? (s : List Char) : Option (List Char × Remainder s) :=
  match s with
  | [] => none
  | '"' :: rest => some ([], ⟨rest, by simp⟩)
  | '\\' :: rest =>
    match h : readEscape? rest with
    | none => none
    | some (c, more) =>
      have := readEscape?_length h
      match readQuoted? more with
      | none => none
      | some (cs, ⟨after, h'⟩) => some (c :: cs, ⟨after, by simp only [List.length_cons]; omega⟩)
  | c :: rest =>
    if c.toNat < 0x20 then none
    else match readQuoted? rest with
      | none => none
      | some (cs, ⟨after, h'⟩) => some (c :: cs, ⟨after, by simp only [List.length_cons]; omega⟩)
termination_by s.length

def takeDigits? (s : List Char) : Option (List Char × List Char) :=
  match s.takeWhile Char.isDigit with
  | [] => none
  | digits => some (digits, s.dropWhile Char.isDigit)

/-- The digits before the point: no zero leads another digit. -/
def takeWhole? (s : List Char) : Option (List Char × List Char) :=
  match takeDigits? s with
  | some ('0' :: _ :: _, _) => none
  | other => other

def takeFraction? : List Char → Option (Option (List Char) × List Char)
  | '.' :: rest => (takeDigits? rest).map fun (digits, more) => (some digits, more)
  | rest => some (none, rest)

def takeExponent? : List Char → Option (Option Int × List Char)
  | c :: rest =>
    if c = 'e' ∨ c = 'E' then
      let (negative, unsigned) := takeSign rest
      (takeDigits? unsigned).map fun (digits, more) =>
        let value : Int := Nat.ofDigitChars 10 digits 0
        (some (if negative then -value else value), more)
    else some (none, c :: rest)
  | [] => some (none, [])

def readUnsigned? (negative : Bool) (s : List Char) : Option (Numeral × List Char) := do
  let (whole, s₁) ← takeWhole? s
  let (fraction, s₂) ← takeFraction? s₁
  let (exponent, s₃) ← takeExponent? s₂
  let value ← match fraction, exponent with
    | none, none => Numeral.whole? negative whole
    | fraction, exponent =>
      Numeral.float? negative whole (fraction.getD []) (exponent.getD 0)
  return (value, s₃)

def readNumber? : List Char → Option (Numeral × List Char)
  | '-' :: rest => readUnsigned? true rest
  | s => readUnsigned? false s

def readWord? : List Char → Option (Json × List Char)
  | 'n' :: 'u' :: 'l' :: 'l' :: rest => some (null, rest)
  | 't' :: 'r' :: 'u' :: 'e' :: rest => some (bool true, rest)
  | 'f' :: 'a' :: 'l' :: 's' :: 'e' :: rest => some (bool false, rest)
  | _ => none

def readScalar? (s : List Char) : Option (Json × List Char) :=
  match readWord? s with
  | some word => some word
  | none => (readNumber? s).map fun (n, rest) => (number n, rest)

/-- Restricts a reader's answers to those that leave a shorter rest. -/
def shorter {α : Type} (s : List Char) : Option (α × List Char) → Option (α × Remainder s)
  | some (a, rest) => if h : rest.length < s.length then some (a, ⟨rest, h⟩) else none
  | none => none

/-- Items with commas between them, up to a closing bracket. -/
def readItems? {α : Type} (item : (s : List Char) → Option (α × Remainder s)) (close : Char)
    (s : List Char) : Option (List α × Remainder s) :=
  match item s with
  | none => none
  | some (a, ⟨rest, h⟩) =>
    match hr : skipSpace rest with
    | [] => none
    | c :: more =>
      have hmore : more.length < s.length := by
        have := length_dropWhile_le isSpace rest
        rw [← skipSpace, hr, List.length_cons] at this
        omega
      if c = close then some ([a], ⟨more, hmore⟩)
      else if c = ',' then
        match readItems? item close more with
        | none => none
        | some (as, ⟨after, h'⟩) => some (a :: as, ⟨after, by omega⟩)
      else none
termination_by s.length

/-- Items that may be none, after the opening bracket. -/
def readList? {α : Type} (item : (s : List Char) → Option (α × Remainder s)) (close : Char)
    (s : List Char) : Option (List α × Remainder s) :=
  match hr : skipSpace s with
  | [] => none
  | c :: more =>
    if c = close then
      some ([], ⟨more, by
        have := length_dropWhile_le isSpace s
        rw [← skipSpace, hr, List.length_cons] at this
        omega⟩)
    else readItems? item close s

/-- What follows a colon, before which there may be white space. -/
def afterColon? (s : List Char) : Option (Remainder s) :=
  match hs : skipSpace s with
  | ':' :: rest => some ⟨rest, by
      have := length_dropWhile_le isSpace s
      rw [← skipSpace, hs, List.length_cons] at this
      omega⟩
  | _ => none

/-- What may differ between formats that write lists and tables as JSON does. -/
structure Grammar where
  /-- A text, read after its opening quote. -/
  text? : (s : List Char) → Option (String × Remainder s)
  /-- The name of a field and the colon after it, read after its opening quote. -/
  key? : (s : List Char) → Option (String × Remainder s)
  /-- A value without quotes or brackets. -/
  scalar? : List Char → Option (Json × List Char)

namespace Grammar

def readField? (g : Grammar) (value : (s : List Char) → Option (Json × Remainder s))
    (s : List Char) : Option ((String × Json) × Remainder s) :=
  match hs : skipSpace s with
  | '"' :: rest =>
    match g.key? rest with
    | none => none
    | some (key, ⟨after, h⟩) =>
      match value after with
      | none => none
      | some (j, ⟨final, h'⟩) =>
        some ((key, j), ⟨final, by
          have := length_dropWhile_le isSpace s
          rw [← skipSpace, hs, List.length_cons] at this
          omega⟩)
  | _ => none

/--
A value, with white space before it, and the rest of the text. Arrays and objects may be open at
most `budget` deep. Of fields with one name the last stays.
-/
def readValue? (g : Grammar) : (budget : Nat) → (s : List Char) → Option (Json × Remainder s)
  | budget, s =>
    match hs : skipSpace s with
    | [] => none
    | c :: more =>
      have hmore : more.length < s.length := by
        have := length_dropWhile_le isSpace s
        rw [← skipSpace, hs, List.length_cons] at this
        omega
      if c = '"' then
        (g.text? more).map fun (text, ⟨rest, h⟩) => (string text, ⟨rest, by omega⟩)
      else if c = '[' then
        match budget with
        | 0 => none
        | budget + 1 => (readList? (g.readValue? budget) ']' more).map fun (items, ⟨rest, h⟩) =>
          (array items, ⟨rest, by omega⟩)
      else if c = '\x7b' then
        match budget with
        | 0 => none
        | budget + 1 =>
          (readList? (g.readField? (g.readValue? budget)) '\x7d' more).map
            fun (fields, ⟨rest, h⟩) => (object (Table.ofList fields), ⟨rest, by omega⟩)
      else shorter s (g.scalar? (c :: more))

end Grammar

/-- A quoted text, after its opening quote. -/
def readText? (s : List Char) : Option (String × Remainder s) :=
  (readQuoted? s).map fun (cs, rest) => (String.ofList cs, rest)

/-- The name of a field, after its opening quote, and the colon after it. -/
def readKey? (s : List Char) : Option (String × Remainder s) :=
  match readQuoted? s with
  | none => none
  | some (key, ⟨after, h⟩) =>
    (afterColon? after).map fun ⟨rest, h'⟩ => (String.ofList key, ⟨rest, by omega⟩)

def grammar : Grammar := ⟨readText?, readKey?, readScalar?⟩

/-- A text that is one value with nothing but white space around it. -/
def readWithin? (budget : Nat) (s : List Char) : Option Json :=
  match grammar.readValue? budget s with
  | some (j, ⟨rest, _⟩) => if (skipSpace rest).isEmpty then some j else none
  | none => none

/-- The number of brackets that may be open at once. -/
def nestingLimit : Nat := 127

def read? (text : String) : Option Json :=
  readWithin? nestingLimit text.toList

def readObject? (text : String) : Option (List (String × Json)) :=
  match read? text with
  | some (object fields) => some fields
  | _ => none

end PageFlow.Json
