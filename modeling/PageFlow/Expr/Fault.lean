import PageFlow.Expr.Token
import PageFlow.Scope

namespace PageFlow

inductive Stage where
  | lex
  | parse
  | eval
deriving DecidableEq

inductive ExprFault where
  | unexpectedCharacter (c : Char)
  | unterminatedString
  | unterminatedEscape
  | emptyExpression
  | trailingToken (value : String)
  | nestedTooDeep (limit : Nat)
  | invalidNumber (text : String)
  | unclosed (opening : Nat) (found : TokenKind)
  | unexpectedEnd
  | unexpectedToken (value : String)
  | tooDeep (limit : Nat)
  | path (fault : PathFault)
deriving DecidableEq

def ExprFault.stage : ExprFault → Stage
  | unexpectedCharacter _ | unterminatedString | unterminatedEscape => .lex
  | emptyExpression | trailingToken _ | nestedTooDeep _ | invalidNumber _ | unclosed .. |
    unexpectedEnd | unexpectedToken _ => .parse
  | tooDeep _ | path _ => .eval

/-- A fault at a place, counted in characters. -/
structure Flaw where
  fault : ExprFault
  offset : Nat
deriving DecidableEq

/-- A flaw of a given source. -/
structure ExprError extends Flaw where
  source : String
deriving DecidableEq

def Flaw.within (flaw : Flaw) (source : String) : ExprError :=
  { flaw with source }

def natText (n : Nat) : String :=
  String.ofList (Nat.toDigits 10 n)

namespace Stage

def name : Stage → String
  | lex => "lex"
  | parse => "parse"
  | eval => "eval"

def description : Stage → String
  | lex => "lex"
  | parse => "parse"
  | eval => "evaluation"

end Stage

namespace ExprError

def stage (e : ExprError) : Stage :=
  e.fault.stage

def message (e : ExprError) : String :=
  match e.fault with
  | .unexpectedCharacter c =>
    "unexpected character '" ++ String.singleton c ++ "' at position " ++ natText e.offset
  | .unterminatedString => "unterminated string starting at position " ++ natText e.offset
  | .unterminatedEscape =>
    "unterminated escape sequence in string starting at position " ++ natText e.offset
  | .emptyExpression => "empty expression"
  | .trailingToken value => "unexpected token '" ++ value ++ "' after end of expression"
  | .nestedTooDeep limit => "expression nested deeper than " ++ natText limit ++ " levels"
  | .invalidNumber text => "invalid number '" ++ text ++ "'"
  | .unclosed opening found =>
    "expected ')' to close '(' at position " ++ natText opening ++ ", found " ++ found.description
  | .unexpectedEnd => "unexpected end of expression"
  | .unexpectedToken value => "unexpected token '" ++ value ++ "'"
  | .tooDeep limit => "maximum expression depth of " ++ natText limit ++ " exceeded"
  | .path fault => fault.message

def text (e : ExprError) : String :=
  e.stage.description ++ " error at position " ++ natText e.offset ++ ": " ++ e.message

/-- The report with the source below it and a mark under the place. Tabs keep the mark in line. -/
def render (e : ExprError) : String :=
  let pad := (e.source.toList.take e.offset).map fun c => if c = '\t' then '\t' else ' '
  e.text ++ "\n  " ++ e.source ++ "\n  " ++ String.ofList pad ++ "^"

end ExprError

end PageFlow
