namespace PageFlow

inductive TokenKind where
  | number
  | string
  | true
  | false
  | null
  | identifier
  | eqEq
  | notEq
  | gtEq
  | ltEq
  | andAnd
  | orOr
  | gt
  | lt
  | bang
  | lparen
  | rparen
  | eof
deriving DecidableEq

def TokenKind.description : TokenKind → String
  | number => "number"
  | string => "string"
  | true => "true"
  | false => "false"
  | null => "null"
  | identifier => "identifier"
  | eqEq => "=="
  | notEq => "!="
  | gtEq => ">="
  | ltEq => "<="
  | andAnd => "&&"
  | orOr => "||"
  | gt => ">"
  | lt => "<"
  | bang => "!"
  | lparen => "("
  | rparen => ")"
  | eof => "end of input"

/-- A token and the characters that it spans. The value of a string is its decoded content. -/
structure Token where
  kind : TokenKind
  value : String
  position : Nat
  length : Nat
deriving DecidableEq

end PageFlow
