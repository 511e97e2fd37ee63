import Mathlib.Data.List.Forall2
import PageFlow.Proofs.Expr.Parsing

namespace PageFlow

namespace Expr

/-- The nodes from left to right, each with its depth; an operator stands where it is written. -/
def nodes (depth : Nat) (e : Expr) : List (Nat × Expr) :=
  match e with
  | not operand _ => (depth, e) :: operand.nodes (depth + 1)
  | binary _ left right _ => left.nodes (depth + 1) ++ (depth, e) :: right.nodes (depth + 1)
  | number .. | string .. | bool .. | null _ | path .. => [(depth, e)]

def inOrder (e : Expr) : List Expr :=
  (e.nodes 0).map Prod.snd

theorem map_snd_nodes (e : Expr) (depth : Nat) : (e.nodes depth).map Prod.snd = e.inOrder := by
  have hshift (e : Expr) (depth depth' : Nat) :
      (e.nodes depth).map Prod.snd = (e.nodes depth').map Prod.snd := by
    induction e generalizing depth depth' with
    | number | string | bool | null | path => rfl
    | not operand pos ih =>
      rw [nodes, nodes, List.map_cons, List.map_cons, ih (depth + 1) (depth' + 1)]
    | binary op left right pos ihLeft ihRight =>
      rw [nodes, nodes, List.map_append, List.map_append, List.map_cons, List.map_cons,
        ihLeft (depth + 1) (depth' + 1), ihRight (depth + 1) (depth' + 1)]
  exact hshift e depth 0

theorem inOrder_not (operand : Expr) (pos : Nat) :
    (not operand pos).inOrder = not operand pos :: operand.inOrder := by
  rw [inOrder, nodes, List.map_cons, map_snd_nodes]

theorem inOrder_binary (op : BinaryOp) (left right : Expr) (pos : Nat) :
    (binary op left right pos).inOrder =
      left.inOrder ++ binary op left right pos :: right.inOrder := by
  rw [inOrder, nodes, List.map_append, List.map_cons, map_snd_nodes, map_snd_nodes]

end Expr

/-- Parentheses and the end of the source leave no node. -/
def TokenKind.HasNode (kind : TokenKind) : Prop :=
  kind ≠ .lparen ∧ kind ≠ .rparen ∧ kind ≠ .eof

instance : DecidablePred TokenKind.HasNode := fun kind =>
  inferInstanceAs (Decidable (kind ≠ .lparen ∧ kind ≠ .rparen ∧ kind ≠ .eof))

theorem TokenKind.IsLeaf.hasNode {kind : TokenKind} (h : kind.IsLeaf) : kind.HasNode := by
  cases h <;> decide

theorem Level.Op.hasNode {l : Level} {kind : TokenKind} {op : BinaryOp} (h : l.Op kind op) :
    kind.HasNode := by
  cases h <;> decide

/-- The node comes from the token: it is its leaf, or an operator that stands at its place. -/
inductive Token.Makes : Token → Expr → Prop
  | leaf {t : Token} (h : t.kind.IsLeaf) : Makes t t.tree
  | not {t : Token} (h : t.kind = .bang) (operand : Expr) : Makes t (.not operand t.position)
  | binary {t : Token} {l : Level} {op : BinaryOp} (h : l.Op t.kind op) (left right : Expr) :
    Makes t (.binary op left right t.position)

namespace Token

variable {t : Token} {ts us : List Token} {e : Expr} {es fs : List Expr}

theorem pos_tree (t : Token) : t.tree.pos = t.position := by
  unfold tree
  split <;> rfl

theorem inOrder_tree (t : Token) : t.tree.inOrder = [t.tree] := by
  unfold tree
  split <;> rfl

theorem Makes.pos_eq (h : t.Makes e) : e.pos = t.position := by
  cases h with
  | leaf => exact t.pos_tree
  | not | binary => rfl

def MakeAll (ts : List Token) (es : List Expr) : Prop :=
  List.Forall₂ Makes (ts.filter fun t => t.kind.HasNode) es

theorem makeAll_nil : MakeAll [] [] :=
  .nil

theorem makeAll_cons_of_not (h : ¬ t.kind.HasNode) : MakeAll (t :: ts) es ↔ MakeAll ts es := by
  rw [MakeAll, List.filter_cons_of_neg (by simpa using h), MakeAll]

theorem MakeAll.cons (hk : t.kind.HasNode) (h : t.Makes e) (hts : MakeAll ts es) :
    MakeAll (t :: ts) (e :: es) := by
  rw [MakeAll, List.filter_cons_of_pos (by simpa using hk)]
  exact .cons h hts

theorem MakeAll.append (hts : MakeAll ts es) (hus : MakeAll us fs) :
    MakeAll (ts ++ us) (es ++ fs) := by
  rw [MakeAll, List.filter_append]
  exact List.rel_append hts hus

theorem map_pos_of_makes (h : List.Forall₂ Makes ts es) : es.map Expr.pos = ts.map position := by
  induction h with
  | nil => rfl
  | cons hmakes hrest ih => rw [List.map_cons, List.map_cons, ih, hmakes.pos_eq]

end Token

open Token (MakeAll)

/-- The tokens of a part make its nodes, behind those that stand before it. -/
def Rule.Makes : (r : Rule) → r.Tree → List Token → Prop
  | .one _, e, ts => MakeAll ts e.inOrder
  | .more _, extend, ts => ∀ before us, MakeAll us before.inOrder →
    MakeAll (us ++ ts) (extend before).inOrder

theorem Derivation.makes {r : Rule} (d : Derivation r) : r.Makes d.tree d.tokens := by
  induction d with
  | chain first others ihFirst ihOthers => exact ihOthers first.tree first.tokens ihFirst
  | stop =>
    intro before us hus
    rwa [tokens, List.append_nil]
  | @next l op t ht operand others ihOperand ihOthers =>
    intro before us hus
    -- what was read so far becomes the left operand, and its tokens stay in front
    have hjoined : MakeAll (us ++ t :: operand.tokens)
        (Expr.binary op before operand.tree t.position).inOrder := by
      rw [Expr.inOrder_binary]
      exact hus.append (.cons ht.hasNode (.binary ht _ _) ihOperand)
    have hall := ihOthers _ _ hjoined
    rwa [List.append_assoc] at hall
  | not t ht operand ih =>
    have hk : t.kind.HasNode := by rw [ht]; decide
    change MakeAll _ (Expr.not operand.tree t.position).inOrder
    rw [Expr.inOrder_not]
    exact .cons hk (.not ht _) ih
  | primary d ih => exact ih
  | leaf t ht =>
    change MakeAll _ t.tree.inOrder
    rw [t.inOrder_tree]
    exact .cons ht.hasNode (.leaf ht) Token.makeAll_nil
  | group left hl d right hr ih =>
    have hleft : ¬ left.kind.HasNode := by rw [hl]; decide
    have hright : ¬ right.kind.HasNode := by rw [hr]; decide
    have hinner : MakeAll (d.tokens ++ [right]) (d.tree.inOrder ++ []) :=
      ih.append ((Token.makeAll_cons_of_not hright).2 Token.makeAll_nil)
    rw [List.append_nil] at hinner
    exact (Token.makeAll_cons_of_not hleft).2 hinner

theorem Tiles.positions {source : List Char} {start stop : Nat} {ts : List Token}
    (h : Tiles source start stop ts) : (ts.map Token.position).Pairwise (· < ·) := by
  rw [List.pairwise_map]
  refine h.ordered.imp_of_mem ?_
  intro t u ht hu hle
  have hpos := (h.reads t ht).length_pos
  rw [Token.stop] at hle
  omega

end PageFlow
