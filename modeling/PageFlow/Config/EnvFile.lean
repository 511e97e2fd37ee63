import PageFlow.Text

namespace PageFlow.EnvFile

abbrev Variables := List (String × String)

/-- What a line is at, as far as that decides where it ends. -/
inductive Place where
  | plain
  | blank
  | escape
  | quoted (quote : Char)
  | quotedEscape (quote : Char)
deriving DecidableEq

def Place.next (c : Char) : Place → Place
  | plain =>
    if Text.isBlank c && c != '\n' && c != '\r' then blank
    else if c = '\\' then escape
    else if c = '"' ∨ c = '\'' then quoted c
    else plain
  | blank => if c = '\\' then escape else if c = '"' ∨ c = '\'' then quoted c else plain
  | escape => plain
  | quoted quote =>
    if c = '\\' then quotedEscape quote else if c = quote then plain else quoted quote
  | quotedEscape quote => quoted quote

/-- A line up to its end or a comment, and the place there; a comment leaves the place plain. -/
def scan (place : Place) : List Char → List Char × Place
  | [] => ([], place)
  | c :: rest =>
    if place = .blank ∧ c = '#' then ([], .plain)
    else
      let (kept, final) := scan (place.next c) rest
      (c :: kept, final)

/-- The lines of a text with their ends. -/
def lines : List Char → List (List Char)
  | [] => []
  | '\n' :: rest => ['\n'] :: lines rest
  | c :: rest =>
    match lines rest with
    | [] => [[c]]
    | first :: others => (c :: first) :: others

def withoutEnd (s : List Char) : List Char :=
  match s.reverse with
  | '\n' :: '\r' :: rest => rest.reverse
  | '\n' :: rest => rest.reverse
  | _ => s

/--
The entries of a text: lines, joined where a quote or an escape is open at the end of one. An entry
that is open at the end of the text is `none`, as the last.
-/
def entries (before : List Char) (place : Place) : List (List Char) → List (Option (List Char))
  | [] => if place = .plain then [] else [none]
  | line :: rest =>
    if (Text.trimStart (before ++ line)).head? = some '#' then entries [] .plain rest
    else
      let (kept, final) := scan place line
      if final = .plain then some (withoutEnd (before ++ kept)) :: entries [] .plain rest
      else entries (before ++ line) final rest

/-- The name at the start of a text, and the rest without the white space before it. -/
def readName? (s : List Char) : Option (String × List Char) :=
  let isNameChar (c : Char) := c.isAlphanum || c == '_' || c == '.'
  match s with
  | [] => none
  | c :: rest =>
    if c.isAlpha ∨ c = '_' then
      some (String.ofList (c :: rest.takeWhile isNameChar),
        Text.trimStart (rest.dropWhile isNameChar))
    else none

/-- What is read of a value: where the reader is, and a name that is to be replaced. -/
inductive Mode where
  | bare
  | escape (weak : Bool)
  | weak
  | strong
  /-- After a dollar sign. -/
  | name (weak : Bool) (letters : List Char)
  /-- In braces after a dollar sign. -/
  | bracedName (weak : Bool) (letters : List Char)
  /-- After white space outside of quotes, where only a comment may follow. -/
  | ending

/-- The mode outside of names, within double quotes or not. -/
def Mode.outside (weak : Bool) : Mode :=
  if weak then .weak else .bare

/-- The value of a variable; one that is not set is empty. -/
def valueOf (vars : Variables) (letters : List Char) : List Char :=
  ((vars.lookup (String.ofList letters)).getD "").toList

def readFrom? (vars : Variables) : Mode → List Char → Option (List Char)
  | .bare, [] | .ending, [] | .escape false, [] => some []
  | .name false letters, [] => some (valueOf vars letters)
  | _, [] => none
  | .ending, c :: rest =>
    if c = ' ' ∨ c = '\t' then readFrom? vars .ending rest
    else if c = '#' then some []
    else none
  | .escape weak, c :: rest =>
    if ['\\', '\'', '"', '$', ' '].contains c then
      (readFrom? vars (.outside weak) rest).map (c :: ·)
    else if c = 'n' then (readFrom? vars (.outside weak) rest).map ('\n' :: ·)
    else none
  | .strong, c :: rest =>
    if c = '\'' then readFrom? vars .bare rest else (readFrom? vars .strong rest).map (c :: ·)
  | .name weak letters, c :: rest =>
    if Text.isAlphabetic c || Text.isNumeric c then
      readFrom? vars (.name weak (letters ++ [c])) rest
    else if c = '\x7b' ∧ letters = [] then readFrom? vars (.bracedName weak []) rest
    else if c = '$' then
      (readFrom? vars (.name weak []) rest).map (valueOf vars letters ++ ·)
    else (readFrom? vars (.outside weak) rest).map (valueOf vars letters ++ c :: ·)
  | .bracedName weak letters, c :: rest =>
    if c = '\x7d' then (readFrom? vars (.outside weak) rest).map (valueOf vars letters ++ ·)
    else readFrom? vars (.bracedName weak (letters ++ [c])) rest
  | .weak, c :: rest =>
    if c = '$' then readFrom? vars (.name true []) rest
    else if c = '"' then readFrom? vars .bare rest
    else if c = '\\' then readFrom? vars (.escape true) rest
    else (readFrom? vars .weak rest).map (c :: ·)
  | .bare, c :: rest =>
    if c = '$' then readFrom? vars (.name false []) rest
    else if c = '\'' then readFrom? vars .strong rest
    else if c = '"' then readFrom? vars .weak rest
    else if c = '\\' then readFrom? vars (.escape false) rest
    else if c = ' ' ∨ c = '\t' then readFrom? vars .ending rest
    else (readFrom? vars .bare rest).map (c :: ·)

/-- The text after an equals sign, without the white space before it. -/
def afterEquals? : List Char → Option (List Char)
  | '=' :: rest => some (Text.trimStart rest)
  | _ => none

/-- An assignment; the word `export` may be in front of it. -/
def readAssignment? (vars : Variables) (s : List Char) : Option (String × String) := do
  let (first, rest) ← readName? s
  let (name, rest) ← match first, afterEquals? rest with
    | "export", none => readName? rest
    | _, _ => some (first, rest)
  let written ← afterEquals? rest
  let value ← if written.head? = some '#' then some [] else readFrom? vars .bare written
  return (name, String.ofList value)

/--
The variables after the entries of a file. What is set already stays, and an entry that cannot be
read ends the file.
-/
def addEntries (vars : Variables) : List (Option (List Char)) → Variables
  | [] | none :: _ => vars
  | some entry :: rest =>
    let entry := Text.trim entry
    if entry = [] ∨ entry.head? = some '#' then addEntries vars rest
    else match readAssignment? vars entry with
      | none => vars
      | some (name, value) =>
        addEntries (if (vars.lookup name).isSome then vars else vars ++ [(name, value)]) rest

/-- The variables after those of a file are added. -/
def addTo (vars : Variables) (text : String) : Variables :=
  addEntries vars (entries [] .plain (lines text.toList))

end PageFlow.EnvFile
