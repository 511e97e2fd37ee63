import PageFlow.Config.Atom

namespace PageFlow.Ron

def startsWord (c : Char) : Bool :=
  c.isAlpha || c == '_'

def isWordChar (c : Char) : Bool :=
  c.isAlphanum || c == '_'

/-- The number that hexadecimal digits spell. -/
def hexadecimal? (digits : List Char) : Option Nat :=
  if digits.isEmpty then none else (digits.mapM Json.hexDigit?).map (·.foldl (16 * · + ·) 0)

/-- The character of a code point in hexadecimal digits. -/
def scalar? (digits : List Char) : Option Char :=
  (hexadecimal? digits).bind fun n => if n.isValidChar then some (Char.ofNat n) else none

/-- The character of an escape sequence, after its backslash, and the rest. -/
def readEscape? : List Char → Option (Char × List Char)
  | '0' :: rest => some ('\x00', rest)
  | '\'' :: rest => some ('\'', rest)
  | '"' :: rest => some ('"', rest)
  | '\\' :: rest => some ('\\', rest)
  | 'n' :: rest => some ('\n', rest)
  | 'r' :: rest => some ('\r', rest)
  | 't' :: rest => some ('\t', rest)
  | 'x' :: a :: b :: rest => (scalar? [a, b]).map (·, rest)
  | 'u' :: '\x7b' :: rest =>
    match rest.dropWhile (· != '\x7d') with
    | _ :: after =>
      let digits := rest.takeWhile (· != '\x7d')
      if digits.length ≤ 6 then (scalar? digits).map (·, after) else none
    | [] => none
  | _ => none

/-- The characters up to the closing quote, and the text after it. -/
def readQuoted? (s : List Char) : Option (List Char × List Char) :=
  match s with
  | [] => none
  | '"' :: rest => some ([], rest)
  | '\\' :: rest =>
    match Json.shorter ('\\' :: rest) (readEscape? rest) with
    | none => none
    | some (c, ⟨more, h⟩) =>
      have : more.length < rest.length + 1 := h
      (readQuoted? more).map fun (cs, after) => (c :: cs, after)
  | c :: rest => (readQuoted? rest).map fun (cs, after) => (c :: cs, after)
termination_by s.length

/-- The characters up to a quote with the given marks after it, and the text after those. -/
def readRaw? (marks : List Char) : List Char → Option (List Char × List Char)
  | [] => none
  | c :: rest =>
    if c = '"' ∧ marks.isPrefixOf rest then some ([], rest.drop marks.length)
    else (readRaw? marks rest).map fun (cs, after) => (c :: cs, after)

/-- A character within single quotes, after the first of them. -/
def readCharacter? : List Char → Option (Char × List Char)
  | '\\' :: rest =>
    match readEscape? rest with
    | some (c, '\'' :: after) => some (c, after)
    | _ => none
  | c :: '\'' :: after => if c = '\'' then none else some (c, after)
  | _ => none

/--
The number that digits below a base spell, among which there may be underscores after the first.
-/
def natural? (base : Nat) (s : List Char) : Option Nat :=
  let digits := s.filter (· != '_')
  if s.head? = some '_' || digits.isEmpty || !digits.all fun c => (Json.hexDigit? c).any (· < base)
  then none
  else (digits.mapM Json.hexDigit?).map (·.foldl (base * · + ·) 0)

/--
The sign and the number of an integer in decimal digits or, after a mark for it, another base.
-/
def integer? (s : List Char) : Option Int :=
  let (negative, unsigned) := takeSign s
  let n? := match unsigned with
    | '0' :: 'x' :: digits => natural? 16 digits
    | '0' :: 'o' :: digits => natural? 8 digits
    | '0' :: 'b' :: digits => natural? 2 digits
    | _ => natural? 10 unsigned
  n?.map fun n => if negative then -n else n

/-- A number that is no integer. -/
def float? (s : List Char) : Option Double :=
  match String.ofList s with
  | "+inf" => some (.infinity false)
  | "-inf" => some (.infinity true)
  | "+NaN" | "-NaN" => some .nan
  | _ => Double.ofNumeral? s

/-- A number with its sign. What 64 bits cannot hold with a sign becomes binary64. -/
def numeral? (s : List Char) : Option Numeral :=
  match integer? s with
  | some n =>
    if -(1 <<< 63 : Int) ≤ n ∧ n < (1 <<< 63 : Int) then some (.int n) else some (.float (.ofInt n))
  | none => (float? s).map .float

/-- One atom, or nothing for white space and comments, and what follows. -/
def next? : List Char → Option (Option Atom × List Char)
  | '/' :: '/' :: rest => some (none, rest.dropWhile (· != '\n'))
  | '/' :: '*' :: rest => (Atom.closeComment? true 0 rest).map (none, ·)
  | [] => none
  | c :: rest =>
    if Json.isSpace c then some (none, rest)
    else if ['[', ']', '\x7b', '\x7d', '(', ')', ',', ':'].contains c then
      some (some (.mark c), rest)
    else if c = '"' then
      (readQuoted? rest).map fun (cs, after) => (some (.text (String.ofList cs)), after)
    else if c = '\'' then
      (readCharacter? rest).map fun (c, after) => (some (.text (String.singleton c)), after)
    else
      let marks := rest.takeWhile (· == '#')
      match rest.drop marks.length with
      | '"' :: raw =>
        if c = 'r' then
          (readRaw? marks raw).map fun (cs, after) => (some (.text (String.ofList cs)), after)
        else none
      | _ =>
        if startsWord c then
          some (some (.word (String.ofList (c :: rest.takeWhile isWordChar))),
            rest.dropWhile isWordChar)
        else
          let numeral := c :: Atom.takeNumeral c rest
          (numeral? numeral).map fun n => (some (.number n), (c :: rest).drop numeral.length)

def textKey? : Atom → Option String
  | .text s => some s
  | _ => none

def wordKey? : Atom → Option String
  | .word s => some s
  | _ => none

/-- A record or a list in parentheses, after the opening one. -/
def members? (value? : List Atom → Option (Json × List Atom)) :
    List Atom → Option (Json × List Atom)
  | .mark ')' :: rest => some (.null, rest)
  | .word w :: .mark ':' :: rest =>
    (Atom.listOf? (Atom.field? wordKey? value?) ')' (.word w :: .mark ':' :: rest)).map
      fun (fields, after) => (.object (Table.ofList fields), after)
  | atoms =>
    (Atom.listOf? value? ')' atoms).map fun (items, after) => (.array items, after)

/-- The end of an optional value: a parenthesis, before which there may be a comma. -/
def closeSome? : Json × List Atom → Option (Json × List Atom)
  | (value, .mark ')' :: rest) | (value, .mark ',' :: .mark ')' :: rest) => some (value, rest)
  | _ => none

/-- A value and the atoms after it. Brackets may be open at most `budget` deep. -/
def value? : (budget : Nat) → List Atom → Option (Json × List Atom)
  | _, .text s :: rest => some (.string s, rest)
  | _, .number n :: rest => some (.number n, rest)
  | budget + 1, .word "Some" :: .mark '(' :: rest => (value? budget rest).bind closeSome?
  | budget + 1, .word _ :: .mark '(' :: rest => members? (value? budget) rest
  | _, .word w :: rest =>
    match w with
    | "true" => some (.bool true, rest)
    | "false" => some (.bool false, rest)
    | "inf" => some (.number (.float (.infinity false)), rest)
    | "NaN" => some (.number (.float .nan), rest)
    | _ => some (.null, rest)
  | budget + 1, .mark '(' :: rest => members? (value? budget) rest
  | budget + 1, .mark '[' :: rest =>
    (Atom.listOf? (value? budget) ']' rest).map fun (items, after) => (.array items, after)
  | budget + 1, .mark '\x7b' :: rest =>
    (Atom.listOf? (Atom.field? textKey? (value? budget)) '\x7d' rest).map
      fun (fields, after) => (.object (Table.ofList fields), after)
  | _, _ => none

def read? (text : String) : Option (Table Json) := do
  let atoms ← Atom.all? next? text.toList
  Atom.table? (value? atoms.length) atoms

end PageFlow.Ron
