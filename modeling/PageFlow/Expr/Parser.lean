import PageFlow.Expr.Lexer
import PageFlow.Expr.Syntax

namespace PageFlow

namespace Parser

/-- An expression at the front of a token list and the tokens after it. -/
abbrev Parsed (ts : List Token) := Except Flaw (Expr × Remainder ts)

/-- Reads one operand. -/
abbrev Operand := (ts : List Token) → Parsed ts

/-- Goes on with operators of one level and their right operands, while there are any. -/
def extend (op? : TokenKind → Option BinaryOp) (operand : Operand) (left : Expr)
    (ts : List Token) : Except Flaw (Expr × { rest : List Token // rest.length ≤ ts.length }) :=
  match ts with
  | [] => .ok (left, ⟨[], Nat.le_refl _⟩)
  | t :: after =>
    match op? t.kind with
    | none => .ok (left, ⟨t :: after, Nat.le_refl _⟩)
    | some op =>
      match operand after with
      | .error flaw => .error flaw
      | .ok (right, ⟨rest, h⟩) =>
        match extend op? operand (.binary op left right t.position) rest with
        | .error flaw => .error flaw
        | .ok (e, ⟨final, h'⟩) => .ok (e, ⟨final, by simp only [List.length_cons]; omega⟩)
termination_by ts.length
decreasing_by simp only [List.length_cons]; omega

/-- Operands joined by the operators of one level, grouped to the left. -/
def chain (op? : TokenKind → Option BinaryOp) (operand : Operand) : Operand := fun ts =>
  match operand ts with
  | .error flaw => .error flaw
  | .ok (left, ⟨rest, h⟩) =>
    match extend op? operand left rest with
    | .error flaw => .error flaw
    | .ok (e, ⟨final, h'⟩) => .ok (e, ⟨final, by omega⟩)

def orOp? : TokenKind → Option BinaryOp
  | .orOr => some .or
  | _ => none

def andOp? : TokenKind → Option BinaryOp
  | .andAnd => some .and
  | _ => none

def equalityOp? : TokenKind → Option BinaryOp
  | .eqEq => some .eq
  | .notEq => some .notEq
  | _ => none

def comparisonOp? : TokenKind → Option BinaryOp
  | .gt => some .gt
  | .lt => some .lt
  | .gtEq => some .gtEq
  | .ltEq => some .ltEq
  | _ => none

/--
The four levels of two-sided operators, loosest first, over a reader of their innermost
operands.
-/
def levels (operand : Operand) : Operand :=
  chain orOp? (chain andOp? (chain equalityOp? (chain comparisonOp? operand)))

/-- How many `!` and parentheses may be open at once. -/
def nestingLimit : Nat := 256

def leaf (t : Token) : Except Flaw Expr :=
  match t.kind with
  | .number =>
    match Double.ofNumeral? t.value.toList with
    | some x => .ok (.number x t.position)
    | none => .error ⟨.invalidNumber t.value, t.position⟩
  | .string => .ok (.string t.value t.position)
  | .true => .ok (.bool true t.position)
  | .false => .ok (.bool false t.position)
  | .null => .ok (.null t.position)
  | .identifier => .ok (.path t.value t.position)
  | _ => .error ⟨.unexpectedToken t.value, t.position⟩

/--
An operand of the innermost level: a leaf, `!` before another such operand, or an expression in
parentheses. The source ends at `stop`.
-/
def unary (stop : Nat) (budget : Nat) (ts : List Token) : Parsed ts :=
  match ts with
  | [] => .error ⟨.unexpectedEnd, stop⟩
  | t :: after =>
    if t.kind = .bang then
      match budget with
      | 0 => .error ⟨.nestedTooDeep nestingLimit, t.position⟩
      | budget + 1 =>
        match unary stop budget after with
        | .error flaw => .error flaw
        | .ok (e, ⟨rest, h⟩) =>
          .ok (.not e t.position, ⟨rest, by simp only [List.length_cons]; omega⟩)
    else if t.kind = .lparen then
      match budget with
      | 0 => .error ⟨.nestedTooDeep nestingLimit, t.position⟩
      | budget + 1 =>
        match levels (unary stop budget) after with
        | .error flaw => .error flaw
        | .ok (_, ⟨[], _⟩) => .error ⟨.unclosed t.position .eof, stop⟩
        | .ok (e, ⟨close :: rest, h⟩) =>
          if close.kind = .rparen then
            .ok (e, ⟨rest, by simp only [List.length_cons] at h ⊢; omega⟩)
          else .error ⟨.unclosed t.position close.kind, close.position⟩
    else (leaf t).map fun e => (e, ⟨after, by simp⟩)

/-- A whole expression from the tokens before the end of the source, which is at `stop`. -/
def expression (stop : Nat) (ts : List Token) : Except Flaw Expr :=
  match ts with
  | [] => .error ⟨.emptyExpression, 0⟩
  | first :: others =>
    match levels (unary stop nestingLimit) (first :: others) with
    | .error flaw => .error flaw
    | .ok (e, ⟨[], _⟩) => .ok e
    | .ok (_, ⟨t :: _, _⟩) => .error ⟨.trailingToken t.value, t.position⟩

end Parser

def parse (source : String) : Except ExprError Expr := do
  let ts ← tokenize source
  (Parser.expression source.length ts.dropLast).mapError (·.within source)

end PageFlow
