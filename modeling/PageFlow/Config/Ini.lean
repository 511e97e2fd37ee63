import PageFlow.Json.Reader
import PageFlow.Text

namespace PageFlow.Ini

inductive Item where
  | heading (name : String)
  | entry (key value : String)

def endsLine (c : Char) : Bool :=
  c == '\n' || c == '\r'

/-- The character that a letter after a backslash stands for; others stand for themselves. -/
def unescape (c : Char) : Char :=
  match c with
  | '0' => '\x00'
  | 'a' => '\x07'
  | 'b' => '\x08'
  | 't' => '\t'
  | 'r' => '\r'
  | 'n' => '\n'
  | c => c

/-- The character of an escape sequence, after its backslash, if it has one, and the rest. -/
def readEscape? : List Char → Option (Option Char × List Char)
  | [] => none
  | '\n' :: rest => some (none, rest)
  | 'x' :: a :: b :: c :: d :: rest =>
    ((Json.unit? a b c d).bind Json.lone?).map fun char => (some char, rest)
  | 'x' :: _ => none
  | c :: rest => some (some (unescape c), rest)

/-- The characters before the first that ends them. The end of the text ends them only if it may. -/
def takeUntil? (stop : Char → Bool) (mayEnd : Bool) (s : List Char) :
    Option (List Char × List Char) :=
  match s with
  | [] => if mayEnd then some ([], []) else none
  | c :: rest =>
    if stop c then some ([], c :: rest)
    else if c = '\\' then
      match Json.shorter (c :: rest) (readEscape? rest) with
      | none => none
      | some (char, ⟨more, h⟩) =>
        have : more.length < rest.length + 1 := h
        (takeUntil? stop mayEnd more).map fun (cs, after) => (char.toList ++ cs, after)
    else (takeUntil? stop mayEnd rest).map fun (cs, after) => (c :: cs, after)
termination_by s.length

/-- The quoted texts at the start of a value, joined, and what is after the last of them. -/
def readQuoted? (s : List Char) : Option (List Char × List Char) :=
  match s with
  | [] => some ([], [])
  | quote :: rest =>
    if quote = '"' ∨ quote = '\'' then
      let inside := (takeUntil? (· == quote) false rest).map fun (cs, after) => (cs, after.drop 1)
      match Json.shorter (quote :: rest) inside with
      | none => none
      | some (quoted, ⟨more, h⟩) =>
        have : more.length < rest.length + 1 := h
        (readQuoted? more).map fun (others, after) => (quoted ++ others, after)
    else some ([], quote :: rest)
termination_by s.length

/--
A value up to the end of the line: quoted texts, then one without quotes. White space at the ends is
dropped, but not what is within quotes or after them.
-/
def readValue? (s : List Char) : Option (List Char × List Char) :=
  let start := s.dropWhile fun c => Text.isBlank c && !endsLine c
  match readQuoted? start with
  | none => none
  | some (quoted, rest) =>
    (takeUntil? endsLine true rest).map fun (bare, after) =>
      (quoted ++ if rest = start then Text.trim bare else Text.trimEnd bare, after)

def trimmed (s : List Char) : String :=
  String.ofList (Text.trim s)

/-- One item, or nothing for white space and comments, and what follows. -/
def next? (startsLine : Bool) : List Char → Option (Option Item × List Char)
  | [] => none
  | c :: rest =>
    if Text.isBlank c then some (none, rest)
    else if c = ';' ∨ c = '#' then
      if startsLine then some (none, rest.dropWhile (· != '\n')) else none
    else if c = '[' then
      match takeUntil? (· == ']') false rest with
      | some (name, _ :: after) => some (some (.heading (trimmed name)), after)
      | _ => none
    else
      match takeUntil? (fun c => c == '=' || c == ':') false (c :: rest) with
      | some (key, _ :: more) =>
        if trimmed key = "" then none
        else (readValue? more).map fun (value, after) =>
          (some (.entry (trimmed key) (String.ofList value)), after)
      | _ => none

def items? (startsLine : Bool) (s : List Char) : Option (List Item) :=
  match s with
  | [] => some []
  | c :: cs =>
    match Json.shorter (c :: cs) (next? startsLine (c :: cs)) with
    | none => none
    | some (item, ⟨rest, h⟩) =>
      have : rest.length < cs.length + 1 := h
      (items? (c == '\n') rest).map (item.toList ++ ·)
termination_by s.length

/-- The tree read so far, and the section that entries go to. -/
structure Reading where
  tree : Table Json := []
  current : Option String := none

/-- Adds an item. A section that is given again starts anew, and the last of equal keys stays. -/
def Reading.add (r : Reading) : Item → Reading
  | .heading name => ⟨r.tree.insert name (.object []), some name⟩
  | .entry key value =>
    match r.current with
    | none => { r with tree := r.tree.insert key (.string value) }
    | some name =>
      match r.tree.get? name with
      | some (.object fields) =>
        { r with tree := r.tree.insert name (.object (Table.insert fields key (.string value))) }
      | _ => r

def read? (text : String) : Option (Table Json) :=
  (items? true text.toList).map fun items => (items.foldl Reading.add {}).tree

end PageFlow.Ini
