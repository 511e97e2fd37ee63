import PageFlow.Json.Basic

namespace PageFlow

inductive BinaryOp where
  | or
  | and
  | eq
  | notEq
  | gt
  | lt
  | gtEq
  | ltEq
deriving DecidableEq

namespace BinaryOp

def symbol : BinaryOp → String
  | or => "||"
  | and => "&&"
  | eq => "=="
  | notEq => "!="
  | gt => ">"
  | lt => "<"
  | gtEq => ">="
  | ltEq => "<="

def name : BinaryOp → String
  | or => "Or"
  | and => "And"
  | eq => "Eq"
  | notEq => "NotEq"
  | gt => "Gt"
  | lt => "Lt"
  | gtEq => "GtEq"
  | ltEq => "LtEq"

end BinaryOp

inductive Expr where
  | number (value : Double) (pos : Nat)
  | string (value : String) (pos : Nat)
  | bool (value : Bool) (pos : Nat)
  | null (pos : Nat)
  | path (name : String) (pos : Nat)
  | not (operand : Expr) (pos : Nat)
  | binary (op : BinaryOp) (left right : Expr) (pos : Nat)
deriving DecidableEq

namespace Expr

def pos : Expr → Nat
  | number _ pos | string _ pos | bool _ pos | null pos | path _ pos | not _ pos |
    binary _ _ _ pos => pos

/-- The tree as data: the kind of node first, then its parts in order. -/
def toJson : Expr → Json
  | number value pos =>
    .object [("type", .string "Number"), ("value", .ofDouble value), ("pos", .nat pos)]
  | string value pos =>
    .object [("type", .string "Str"), ("value", .string value), ("pos", .nat pos)]
  | bool value pos =>
    .object [("type", .string "Bool"), ("value", .bool value), ("pos", .nat pos)]
  | null pos => .object [("type", .string "Null"), ("pos", .nat pos)]
  | path name pos =>
    .object [("type", .string "Identifier"), ("name", .string name), ("pos", .nat pos)]
  | binary op left right pos =>
    .object [("type", .string "Binary"), ("op", .string op.name), ("left", left.toJson),
      ("right", right.toJson), ("pos", .nat pos)]
  | not operand pos =>
    .object [("type", .string "Unary"), ("op", .string "Not"), ("operand", operand.toJson),
      ("pos", .nat pos)]

end Expr

end PageFlow
