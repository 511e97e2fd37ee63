import PageFlow.Json.Reader

namespace PageFlow.Yaml

/-- A piece of a quoted text: a character as it stands, or one that an escape spells. -/
inductive Piece where
  | plain (c : Char)
  | spelled (c : Char) (width : Nat)
deriving DecidableEq

namespace Piece

def char : Piece → Char
  | plain c | spelled c _ => c

/-- The number of characters that a piece is written with. -/
def width : Piece → Nat
  | plain _ => 1
  | spelled _ width => width

/-- The number of characters that pieces are written with. -/
def totalWidth : List Piece → Nat
  | [] => 0
  | p :: rest => p.width + totalWidth rest

/-- The first piece of a quoted text, and the rest. A pair of units does not spell a character. -/
def next? : List Char → Option (Piece × List Char)
  | '\\' :: 'u' :: a :: b :: c :: d :: rest =>
    ((Json.unit? a b c d).bind Json.lone?).map fun char => (spelled char 6, rest)
  | '\\' :: c :: rest => (Json.unescape? c).map fun char => (spelled char 2, rest)
  | c :: rest => if c.toNat < 0x20 ∨ c = '\\' then none else some (plain c, rest)
  | [] => none

theorem next?_length {s rest : List Char} {p : Piece} (h : next? s = some (p, rest)) :
    rest.length < s.length := by
  unfold next? at h
  split at h
  · obtain ⟨x, -, hx⟩ := Option.map_eq_some_iff.1 h
    cases hx; simp only [List.length_cons]; omega
  · obtain ⟨x, -, hx⟩ := Option.map_eq_some_iff.1 h
    cases hx; simp only [List.length_cons]; omega
  · split at h
    · cases h
    · cases h; simp
  · cases h

end Piece

/-- The pieces up to the closing quote, and the text after it. -/
def readPieces? (s : List Char) : Option (List Piece × Remainder s) :=
  match s with
  | [] => none
  | '"' :: rest => some ([], ⟨rest, by simp⟩)
  | c :: cs =>
    match h : Piece.next? (c :: cs) with
    | none => none
    | some (p, rest) =>
      have : rest.length < cs.length + 1 := Piece.next?_length h
      match readPieces? rest with
      | none => none
      | some (ps, ⟨after, h'⟩) => some (p :: ps, ⟨after, by simp only [List.length_cons]; omega⟩)
termination_by s.length

/-- Whether a piece ends a line, where `endsLine` says which characters do. -/
def Piece.endsLine (endsLine : Char → Bool) : Piece → Bool
  | plain c => endsLine c
  | spelled .. => false

/-- Whether a piece can be folded: a line break or a blank. -/
def Piece.isGap (endsLine : Char → Bool) : Piece → Bool
  | plain c => c == ' ' || endsLine c
  | spelled .. => false

/-- Whether some line but the first begins with the mark of a document's start or end. -/
def marksDocument (endsLine : Char → Bool) : List Piece → Bool
  | [] => false
  | p :: rest =>
    let marked := match rest with
      | .plain a :: .plain b :: .plain c :: after :: _ =>
        ([a, b, c] == ['-', '-', '-'] || [a, b, c] == ['.', '.', '.']) && after.isGap endsLine
      | _ => false
    (p.endsLine endsLine && marked) || marksDocument endsLine rest

/-- A line break as a value holds it. -/
def lineBreak (c : Char) : Char :=
  if c = '\x85' then '\n' else c

/--
The text of a run of blanks and line breaks, or of any other piece. Only the breaks of a run count,
if it has one; an ordinary first one is dropped, or becomes a blank if it is the only one.
-/
def foldRun (endsLine : Char → Bool) (run : List Piece) : List Char :=
  match (run.filter (·.endsLine endsLine)).map fun p => lineBreak p.char with
  | [] => run.map Piece.char
  | ['\n'] => [' ']
  | '\n' :: more => more
  | breaks => breaks

/-- The text of the pieces between two quotes. -/
def fold (endsLine : Char → Bool) (pieces : List Piece) : String :=
  let runs := pieces.splitBy fun p q => p.isGap endsLine && q.isGap endsLine
  String.ofList (runs.flatMap (foldRun endsLine))

end PageFlow.Yaml
