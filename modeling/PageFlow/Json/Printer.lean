import PageFlow.Json.Basic
import PageFlow.Number.Layout

namespace PageFlow

/-- Binary64 numbers are written in place below `10 ^ 16`, always with a point. -/
def Numeral.layout : Layout where
  least := -5
  greatest := 15
  pointed := true
  tie := .even

namespace Numeral

def text : Numeral → List Char
  | int n => if n < 0 then '-' :: Nat.toDigits 10 n.natAbs else Nat.toDigits 10 n.natAbs
  | float .nan => "null".toList
  | float (.signed negative m) => layout.signed negative m

end Numeral

namespace Json

def escape (c : Char) : List Char :=
  match c with
  | '"' => ['\\', '"']
  | '\\' => ['\\', '\\']
  | '\x08' => ['\\', 'b']
  | '\x0c' => ['\\', 'f']
  | '\n' => ['\\', 'n']
  | '\r' => ['\\', 'r']
  | '\t' => ['\\', 't']
  | c =>
    if c.toNat < 0x20 then
      ['\\', 'u', '0', '0', Nat.digitChar (c.toNat / 16), Nat.digitChar (c.toNat % 16)]
    else [c]

def quoted (s : String) : List Char :=
  '"' :: (s.toList.flatMap escape ++ ['"'])

mutual

/-- The text without white space. -/
def chars : Json → List Char
  | null => "null".toList
  | bool b => (if b then "true" else "false").toList
  | number n => n.text
  | string s => quoted s
  | array items => '[' :: (itemChars items ++ [']'])
  | object fields => '\x7b' :: (fieldChars fields ++ ['\x7d'])

def itemChars : List Json → List Char
  | [] => []
  | [item] => item.chars
  | item :: rest => item.chars ++ ',' :: itemChars rest

def fieldChars : List (String × Json) → List Char
  | [] => []
  | [(key, value)] => quoted key ++ ':' :: value.chars
  | (key, value) :: rest => quoted key ++ ':' :: (value.chars ++ ',' :: fieldChars rest)

end

def compact (j : Json) : String :=
  String.ofList j.chars

/-- A line break and two blanks for each level. -/
def newline (level : Nat) : List Char :=
  '\n' :: List.replicate (2 * level) ' '

mutual

/-- The text with one item or field a line, inside a given number of levels. -/
def indented (level : Nat) : Json → List Char
  | array [] => ['[', ']']
  | array (item :: rest) =>
    '[' :: (newline (level + 1) ++ item.indented (level + 1) ++ indentedItems (level + 1) rest ++
      newline level ++ [']'])
  | object [] => ['\x7b', '\x7d']
  | object ((key, value) :: rest) =>
    '\x7b' :: (newline (level + 1) ++ quoted key ++ ':' :: ' ' :: value.indented (level + 1) ++
      indentedFields (level + 1) rest ++ newline level ++ ['\x7d'])
  | scalar => scalar.chars

/-- The items after the first, each after a comma. -/
def indentedItems (level : Nat) : List Json → List Char
  | [] => []
  | item :: rest => ',' :: (newline level ++ item.indented level ++ indentedItems level rest)

/-- The fields after the first, each after a comma. -/
def indentedFields (level : Nat) : List (String × Json) → List Char
  | [] => []
  | (key, value) :: rest =>
    ',' :: (newline level ++ quoted key ++ ':' :: ' ' :: value.indented level ++
      indentedFields level rest)

end

def pretty (j : Json) : String :=
  String.ofList (j.indented 0)

end Json

end PageFlow
