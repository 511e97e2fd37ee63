import PageFlow.Json.Reader

namespace PageFlow.Toml

def isBareKey (c : Char) : Bool :=
  c.isAlphanum || c == '_' || c == '-'

def isSpace (c : Char) : Bool :=
  c == ' ' || c == '\t'

/-- What a comment or a quoted text may hold: everything but control characters, the tab apart. -/
def isPlain (c : Char) : Bool :=
  c == '\t' || (0x20 ≤ c.toNat && c.toNat != 0x7F)

/-- Whether nothing but a comment follows. -/
def endsLine (s : List Char) : Bool :=
  match s.dropWhile isSpace with
  | [] => true
  | c :: comment => c == '#' && comment.all isPlain

/-- A key, with white space around it, and what follows. -/
def readKey? (s : List Char) : Option (String × List Char) :=
  let s := s.dropWhile isSpace
  match s.takeWhile isBareKey with
  | [] => none
  | key => some (String.ofList key, (s.dropWhile isBareKey).dropWhile isSpace)

/-- The number that hexadecimal digits spell. -/
def hexadecimal? (digits : List Char) : Option Nat :=
  (digits.mapM Json.hexDigit?).map (·.foldl (16 * · + ·) 0)

/-- The character of a code point in hexadecimal digits. -/
def scalar? (digits : List Char) : Option Char :=
  (hexadecimal? digits).bind fun n => if n.isValidChar then some (Char.ofNat n) else none

/-- The character that a letter after a backslash stands for. -/
def unescape? (c : Char) : Option Char :=
  if c = '/' then none else Json.unescape? c

/-- The character of an escape sequence, after its backslash, and the rest. -/
def readEscape? : List Char → Option (Char × List Char)
  | 'u' :: rest => if rest.length < 4 then none else (scalar? (rest.take 4)).map (·, rest.drop 4)
  | 'U' :: rest => if rest.length < 8 then none else (scalar? (rest.take 8)).map (·, rest.drop 8)
  | c :: rest => (unescape? c).map (·, rest)
  | [] => none

/-- The characters up to the closing quote, and the text after it. -/
def readQuoted? (s : List Char) : Option (List Char × List Char) :=
  match s with
  | [] => none
  | '"' :: rest => some ([], rest)
  | '\\' :: rest =>
    match Json.shorter ('\\' :: rest) (readEscape? rest) with
    | none => none
    | some (c, ⟨more, h⟩) =>
      have : more.length < rest.length + 1 := h
      (readQuoted? more).map fun (cs, after) => (c :: cs, after)
  | c :: rest =>
    if isPlain c then (readQuoted? rest).map fun (cs, after) => (c :: cs, after) else none
termination_by s.length

/-- Digits with single underscores between them, without the underscores. -/
def digits? (isDigit : Char → Bool) : List Char → Option (List Char)
  | [] => none
  | [c] => if isDigit c then some [c] else none
  | c :: '_' :: rest => if isDigit c then (digits? isDigit rest).map (c :: ·) else none
  | c :: rest => if isDigit c then (digits? isDigit rest).map (c :: ·) else none

def natural? (base : Nat) (s : List Char) : Option Nat :=
  (digits? (fun c => (Json.hexDigit? c).any (· < base)) s).bind fun digits =>
    (digits.mapM Json.hexDigit?).map (·.foldl (base * · + ·) 0)

/-- An integer in decimal digits with a sign; no zero leads another digit. -/
def decimal? (s : List Char) : Option Int :=
  let (negative, unsigned) := takeSign s
  match unsigned with
  | '0' :: _ :: _ => none
  | _ => (natural? 10 unsigned).map fun n => if negative then -n else n

/-- An integer of 64 bits with a sign, which only decimal digits may have in front. -/
def integer? (s : List Char) : Option Int :=
  let n? := match s with
    | '0' :: 'x' :: digits => (natural? 16 digits).map Int.ofNat
    | '0' :: 'o' :: digits => (natural? 8 digits).map Int.ofNat
    | '0' :: 'b' :: digits => (natural? 2 digits).map Int.ofNat
    | _ => decimal? s
  n?.bind fun n => if -(1 <<< 63 : Int) ≤ n ∧ n < (1 <<< 63 : Int) then some n else none

def readValue? (s : List Char) : Option Json :=
  match s.dropWhile isSpace with
  | '"' :: rest =>
    match readQuoted? rest with
    | some (text, after) => if endsLine after then some (.string (String.ofList text)) else none
    | none => none
  | s =>
    let word := s.takeWhile fun c => !isSpace c && c != '#'
    if !endsLine (s.dropWhile fun c => !isSpace c && c != '#') then none
    else if word = "true".toList then some (.bool true)
    else if word = "false".toList then some (.bool false)
    else (integer? word).map .int

inductive Line where
  | blank
  | header (name : String)
  | entry (key : String) (value : Json)

def readLine? (s : List Char) : Option Line :=
  if endsLine s then some .blank
  else match s.dropWhile isSpace with
    | '[' :: rest =>
      match readKey? rest with
      | some (name, ']' :: after) => if endsLine after then some (.header name) else none
      | _ => none
    | s =>
      match readKey? s with
      | some (key, '=' :: after) => (readValue? after).map (.entry key)
      | _ => none

/-- The lines of a text, without their ends. -/
def lines : List Char → List (List Char)
  | [] => [[]]
  | '\r' :: '\n' :: rest => [] :: lines rest
  | '\n' :: rest => [] :: lines rest
  | c :: rest =>
    match lines rest with
    | [] => [[c]]
    | first :: others => (c :: first) :: others

/-- The tree read so far, and the section that entries go to. -/
structure Reading where
  tree : Table Json := []
  current : Option String := none

/-- Adds a line. No section and no key of a section is given twice. -/
def Reading.add? (r : Reading) : Line → Option Reading
  | .blank => some r
  | .header name =>
    if r.tree.contains name then none
    else some ⟨r.tree.insert name (.object []), some name⟩
  | .entry key value =>
    match r.current with
    | none => if r.tree.contains key then none else some { r with tree := r.tree.insert key value }
    | some name =>
      match r.tree.get? name with
      | some (.object fields) =>
        if Table.contains fields key then none
        else some { r with tree := r.tree.insert name (.object (Table.insert fields key value)) }
      | _ => none

def read? (text : String) : Option (Table Json) := do
  let read ← (lines text.toList).mapM readLine?
  let final ← read.foldlM Reading.add? {}
  return final.tree

end PageFlow.Toml
