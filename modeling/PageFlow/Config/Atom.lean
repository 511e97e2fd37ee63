import PageFlow.Json.Reader

namespace PageFlow

inductive Atom where
  | mark (c : Char)
  /-- A quoted text, without its quotes. -/
  | text (s : String)
  | word (s : String)
  | number (n : Numeral)
deriving DecidableEq

namespace Atom

/--
The text after a comment that is open `depth + 1` deep; only comments that nest can be deeper.
-/
def closeComment? (nest : Bool) : (depth : Nat) → List Char → Option (List Char)
  | _, [] => none
  | 0, '*' :: '/' :: rest => some rest
  | depth + 1, '*' :: '/' :: rest => closeComment? nest depth rest
  | depth, '/' :: '*' :: rest =>
    if nest then closeComment? nest (depth + 1) rest else closeComment? nest depth ('*' :: rest)
  | depth, _ :: rest => closeComment? nest depth rest
termination_by _ s => s.length

/-- The atoms of a text, where one step gives an atom or skips what is none. -/
def all? (next? : List Char → Option (Option Atom × List Char)) (s : List Char) :
    Option (List Atom) :=
  match s with
  | [] => some []
  | c :: cs =>
    match Json.shorter (c :: cs) (next? (c :: cs)) with
    | none => none
    | some (atom, ⟨rest, h⟩) =>
      have : rest.length < cs.length + 1 := h
      (all? next? rest).map (atom.toList ++ ·)
termination_by s.length

/-- The characters of a numeral: letters, digits and points, and signs after the letter e. -/
def takeNumeral (before : Char) : List Char → List Char
  | [] => []
  | c :: rest =>
    let signed := (c == '+' || c == '-') && before.toLower == 'e'
    if c.isAlphanum || c == '.' || c == '_' || signed then c :: takeNumeral c rest else []

variable {α : Type}

/--
Items with commas between them up to a closing bracket, before which there may be one more comma.
There are at most as many items as atoms, which `limit` counts.
-/
def items? (item? : List Atom → Option (α × List Atom)) (close : Char) :
    (limit : Nat) → List Atom → Option (List α × List Atom)
  | 0, _ => none
  | limit + 1, atoms =>
    if atoms.head? = some (mark close) then some ([], atoms.tail)
    else match item? atoms with
      | some (a, mark c :: rest) =>
        if c = close then some ([a], rest)
        else if c = ',' then (items? item? close limit rest).map fun (as, after) => (a :: as, after)
        else none
      | _ => none

/-- The items after an opening bracket. -/
def listOf? (item? : List Atom → Option (α × List Atom)) (close : Char)
    (atoms : List Atom) : Option (List α × List Atom) :=
  items? item? close atoms.length atoms

def field? (key? : Atom → Option String) (value? : List Atom → Option (Json × List Atom)) :
    List Atom → Option ((String × Json) × List Atom)
  | first :: mark ':' :: rest =>
    match key? first, value? rest with
    | some key, some (value, after) => some ((key, value), after)
    | _, _ => none
  | _ => none

/-- The entries of a text that is one table and nothing else. -/
def table? (value? : List Atom → Option (Json × List Atom)) (atoms : List Atom) :
    Option (Table Json) :=
  match value? atoms with
  | some (.object fields, []) => some fields
  | _ => none

end Atom

end PageFlow
