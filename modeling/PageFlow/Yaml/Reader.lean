import PageFlow.Yaml.Quoted

namespace PageFlow.Yaml

/-- What readers of YAML that is written as JSON differ in. -/
structure Rules where
  /-- The number of brackets that may be open at once. -/
  nesting : Nat
  /-- The characters that may stand in a text. -/
  admits : Char → Bool
  endsLine : Char → Bool
  /--
  How far a colon may be from the opening quote of its key. If this is limited, the key and the
  colon are on one line.
  -/
  keyWidth : Option Nat
  /-- Whether a line may begin with a tab outside brackets. -/
  tabs : Bool
  /-- The value of a numeral. -/
  number? : List Char → Option Json

namespace Rules

/-- The pieces of a quoted text, in which no line is one that marks a document. -/
def pieces? (r : Rules) (s : List Char) : Option (List Piece × Remainder s) :=
  (readPieces? s).filter fun (pieces, _) => !marksDocument r.endsLine pieces

def text? (r : Rules) (s : List Char) : Option (String × Remainder s) :=
  (r.pieces? s).map fun (pieces, rest) => (fold r.endsLine pieces, rest)

/-- Whether a key may be written with these pieces and with this white space before its colon. -/
def keyFits (r : Rules) (pieces : List Piece) (gap : List Char) : Bool :=
  match r.keyWidth with
  | none => true
  | some limit =>
    !pieces.any (·.endsLine r.endsLine) && !gap.any r.endsLine &&
      Piece.totalWidth pieces + gap.length + 2 ≤ limit

def key? (r : Rules) (s : List Char) : Option (String × Remainder s) := do
  let (pieces, after) ← r.pieces? s
  if r.keyFits pieces (after.val.takeWhile Json.isSpace) then
    let rest ← Json.afterColon? after.val
    return (fold r.endsLine pieces, ⟨rest.val, Nat.lt_trans rest.property after.property⟩)
  else none

/-- Whether a character may stand in a numeral. -/
def isNumeralChar (c : Char) : Bool :=
  c.isDigit || ['-', '+', '.', 'e', 'E'].contains c

/-- Whether a word is a numeral of JSON. -/
def isNumeral (word : List Char) : Bool :=
  let unsigned := if word.head? = some '-' then word.tail else word
  let rest? := do
    let (_, rest) ← Json.takeWhole? unsigned
    let (_, rest) ← Json.takeFraction? rest
    let (_, rest) ← Json.takeExponent? rest
    return rest
  rest? = some []

def scalar? (r : Rules) (s : List Char) : Option (Json × List Char) :=
  match Json.readWord? s with
  | some word => some word
  | none =>
    let word := s.takeWhile isNumeralChar
    if isNumeral word then (r.number? word).map (·, s.dropWhile isNumeralChar) else none

def grammar (r : Rules) : Json.Grammar := ⟨r.text?, r.key?, r.scalar?⟩

def tabsFit (r : Rules) (gap : List Char) : Bool :=
  r.tabs || !gap.contains '\t'

/-- The value of a text, which is `none` if there is only white space. -/
def read? (r : Rules) (text : String) : Option (Option Json) :=
  let s := text.toList
  if !s.all r.admits || !r.tabsFit (s.takeWhile Json.isSpace) then none
  else if (Json.skipSpace s).isEmpty then some none
  else match r.grammar.readValue? r.nesting s with
    | some (j, ⟨rest, _⟩) =>
      let lines := rest.dropWhile fun c => !r.endsLine c
      if (Json.skipSpace rest).isEmpty && r.tabsFit lines then some (some j) else none
    | none => none

end Rules

/-- The characters that YAML calls printable. -/
def isPrintable (c : Char) : Bool :=
  ['\t', '\n', '\r', '\x85'].contains c || (' ' ≤ c && c ≤ '~') ||
    ('\xa0' ≤ c && c ≤ '\uFFFD') || '\uFFFF' < c

/-- The number nearest to a numeral; the numeral as a text if it is too large for a number. -/
def realOrText (word : List Char) : Json :=
  match (Double.ofNumeral? word).filter Double.isFinite with
  | some x => .number (.float x)
  | none => .string (String.ofList word)

/-- Integers of 64 bits, signed or not. Those that take up to 128 bits are refused. -/
def strictNumber? (word : List Char) : Option Json :=
  match readInteger? word with
  | some n =>
    if -(1 <<< 63 : Int) ≤ n ∧ n < (1 <<< 64 : Int) then some (.int n)
    else if -(1 <<< 127 : Int) ≤ n ∧ n < (1 <<< 128 : Int) then none
    else some (realOrText word)
  | none => some (realOrText word)

/-- Signed integers of 64 bits; all else is the nearest number, which may be infinite. -/
def lenientNumber? (word : List Char) : Option Json :=
  match (readInteger? word).filter fun n => -(1 <<< 63 : Int) ≤ n ∧ n < (1 <<< 63 : Int) with
  | some n => some (.int n)
  | none => (Double.ofNumeral? word).map fun x => .number (.float x)

/-- YAML with the line breaks of Unicode, short keys, and no tabs as indentation. -/
def strict : Rules where
  nesting := 128
  admits := isPrintable
  endsLine c := ['\n', '\r', '\x85', '\u2028', '\u2029'].contains c
  keyWidth := some 1024
  tabs := false
  number? := strictNumber?

/-- YAML in which keys and white space have no other forms than in JSON. -/
def lenient : Rules where
  nesting := 255
  admits _ := true
  endsLine c := c == '\n' || c == '\r'
  keyWidth := none
  tabs := true
  number? := lenientNumber?

end PageFlow.Yaml
