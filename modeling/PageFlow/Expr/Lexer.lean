import PageFlow.Expr.Fault
import PageFlow.Text

namespace PageFlow

/-- What a token takes from the front of a text. -/
structure Lexeme where
  kind : TokenKind
  value : List Char
  length : Nat
  length_pos : 0 < length

namespace Lexeme

def startsWord (c : Char) : Bool :=
  Text.isAlphabetic c || c == '_' || c == '$'

def continuesWord (c : Char) : Bool :=
  Text.isAlphabetic c || Text.isNumeric c || c == '_' || c == '$' || c == '.'

/-- The kind of a word: a keyword or an identifier. -/
def wordKind (word : List Char) : TokenKind :=
  if word = "true".toList then .true
  else if word = "false".toList then .false
  else if word = "null".toList then .null
  else .identifier

/-- Digits, and a point with more digits if a digit follows the point. -/
def numberSpan (s : List Char) : List Char :=
  let whole := s.takeWhile Char.isDigit
  match s.dropWhile Char.isDigit with
  | '.' :: rest =>
    match rest.takeWhile Char.isDigit with
    | [] => whole
    | fraction => whole ++ '.' :: fraction
  | _ => whole

def unescape (c : Char) : Char :=
  match c with
  | 'n' => '\n'
  | 't' => '\t'
  | 'r' => '\r'
  | other => other

/-- The content up to the closing quote, with the number of characters up to and with that quote. -/
def quoted (quote : Char) : List Char → Except ExprFault (List Char × Nat)
  | [] => .error .unterminatedString
  | c :: rest =>
    if c = quote then .ok ([], 1)
    else if c = '\\' then
      match rest with
      | [] => .error .unterminatedEscape
      | escaped :: more =>
        (quoted quote more).map fun (value, length) => (unescape escaped :: value, length + 2)
    else (quoted quote rest).map fun (value, length) => (c :: value, length + 1)

def pairKind? : Char → Char → Option TokenKind
  | '=', '=' => some .eqEq
  | '!', '=' => some .notEq
  | '>', '=' => some .gtEq
  | '<', '=' => some .ltEq
  | '&', '&' => some .andAnd
  | '|', '|' => some .orOr
  | _, _ => none

def singleKind? : Char → Option TokenKind
  | '>' => some .gt
  | '<' => some .lt
  | '!' => some .bang
  | '(' => some .lparen
  | ')' => some .rparen
  | _ => none

/-- The operator at the front, of two characters where possible. -/
def operator (c : Char) (rest : List Char) : Except ExprFault Lexeme :=
  match rest.head?.bind fun d => (pairKind? c d).map (·, d) with
  | some (kind, d) => .ok ⟨kind, [c, d], 2, by decide⟩
  | none =>
    match singleKind? c with
    | some kind => .ok ⟨kind, [c], 1, by decide⟩
    | none => .error (.unexpectedCharacter c)

/-- The token at the front of a text that starts with `c`, which is not blank. -/
def read (c : Char) (rest : List Char) : Except ExprFault Lexeme :=
  if hd : c.isDigit then
    .ok ⟨.number, numberSpan (c :: rest), (numberSpan (c :: rest)).length, by
      simp only [numberSpan, List.takeWhile_cons, hd, if_true]
      split
      · split <;> simp
      · simp⟩
  else if c = '"' ∨ c = '\'' then
    (quoted c rest).map fun (value, length) => ⟨.string, value, length + 1, Nat.succ_pos _⟩
  else if startsWord c then
    let word := c :: rest.takeWhile continuesWord
    .ok ⟨wordKind word, word, word.length, Nat.succ_pos _⟩
  else operator c rest

end Lexeme

/-- A place in a source: how many characters are behind it, and the characters ahead. -/
structure Cursor where
  position : Nat
  rest : List Char
deriving DecidableEq

namespace Cursor

def start (source : String) : Cursor := ⟨0, source.toList⟩

def advance (c : Cursor) (count : Nat) : Cursor :=
  ⟨c.position + count, c.rest.drop count⟩

def skipBlank (c : Cursor) : Cursor :=
  c.advance (c.rest.takeWhile Text.isBlank).length

def finish (c : Cursor) : Cursor :=
  c.advance c.rest.length

/--
The next token and the cursor behind it. At the end of the source it is `eof`, however often it is
asked for. An unexpected character stays ahead, and a string that does not end takes all that is
left.
-/
def next (c : Cursor) : Except Flaw Token × Cursor :=
  let here := c.skipBlank
  match here.rest with
  | [] => (.ok ⟨.eof, "", here.position, 0⟩, here)
  | first :: rest =>
    match Lexeme.read first rest with
    | .ok l => (.ok ⟨l.kind, String.ofList l.value, here.position, l.length⟩, here.advance l.length)
    | .error (.unexpectedCharacter x) => (.error ⟨.unexpectedCharacter x, here.position⟩, here)
    | .error fault => (.error ⟨fault, here.position⟩, here.finish)

theorem length_skipBlank_le (c : Cursor) : c.skipBlank.rest.length ≤ c.rest.length := by
  simp [skipBlank, advance]

theorem next_length_lt {c after : Cursor} {t : Token} (h : c.next = (.ok t, after))
    (ht : t.kind ≠ .eof) : after.rest.length < c.rest.length := by
  have hle := c.length_skipBlank_le
  simp only [next] at h
  split at h
  · cases h; exact absurd rfl ht
  · next first rest hrest =>
    split at h
    · next l _ =>
      cases h
      have := l.length_pos
      simp only [advance, hrest, List.length_drop, List.length_cons] at hle ⊢
      omega
    · cases h
    · cases h

/-- All tokens from here on; the last is the only `eof`. -/
def tokens (c : Cursor) : Except Flaw (List Token) :=
  match _h : c.next with
  | (.error flaw, _) => .error flaw
  | (.ok t, after) =>
    if _ht : t.kind = .eof then .ok [t]
    else (tokens after).map (t :: ·)
termination_by c.rest.length
decreasing_by exact next_length_lt _h _ht

/-- The results of asking for the next token `n` times. -/
def pull (c : Cursor) : Nat → List (Except Flaw Token)
  | 0 => []
  | n + 1 => c.next.1 :: pull c.next.2 n

end Cursor

def tokenize (source : String) : Except ExprError (List Token) :=
  (Cursor.start source).tokens.mapError (·.within source)

end PageFlow
