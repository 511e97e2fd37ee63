import PageFlow.Expr.Parser

namespace PageFlow

/-- Whether an ordering operator holds of two values, as numbers; false if either is none. -/
def BinaryOp.orders (op : BinaryOp) (l r : Value) : Bool :=
  let a := l.toNumber
  let b := r.toNumber
  match op with
  | .gt => b.less a
  | .lt => a.less b
  | .gtEq => b.atMost a
  | .ltEq => a.atMost b
  | _ => false

namespace Expr

/-- The value of a node at a depth; a node below the limit is an error when it is reached. -/
def evalAt (limit : Nat) (vars : Variables) (depth : Nat) (e : Expr) : Except Flaw Value :=
  if limit < depth then .error ⟨.tooDeep limit, e.pos⟩
  else match e with
    | number value _ => .ok (.number value)
    | string value _ => .ok (.text value)
    | bool value _ => .ok (.bool value)
    | null _ => .ok .null
    | path name pos => (Path.resolve name vars).mapError fun fault => ⟨.path fault, pos⟩
    | not operand _ => do
      let v ← operand.evalAt limit vars (depth + 1)
      return .bool !v.truthy
    | binary op left right _ => do
      let l ← left.evalAt limit vars (depth + 1)
      match op with
      | .and => if l.truthy then right.evalAt limit vars (depth + 1) else return l
      | .or => if l.truthy then return l else right.evalAt limit vars (depth + 1)
      | .eq =>
        let r ← right.evalAt limit vars (depth + 1)
        return .bool (l.looseEq r)
      | .notEq =>
        let r ← right.evalAt limit vars (depth + 1)
        return .bool !(l.looseEq r)
      | op =>
        let r ← right.evalAt limit vars (depth + 1)
        return .bool (op.orders l r)

/-- The value of a tree, with the source that its errors report. -/
def eval (limit : Nat) (vars : Variables) (source : String) (e : Expr) : Except ExprError Value :=
  (e.evalAt limit vars 0).mapError (·.within source)

end Expr

def evaluate (limit : Nat) (vars : Variables) (source : String) : Except ExprError Value := do
  let e ← parse source
  e.eval limit vars source

def holds (limit : Nat) (vars : Variables) (source : String) : Except ExprError Bool :=
  (evaluate limit vars source).map Value.truthy

end PageFlow
