import PageFlow.Expr.Syntax
import PageFlow.Expr.Token
import PageFlow.Number.Decimal

namespace PageFlow

/-- The levels of two-sided operators, loosest first. -/
inductive Level where
  | or
  | and
  | equality
  | comparison

inductive Level.Op : Level → TokenKind → BinaryOp → Prop
  | or : Op .or .orOr .or
  | and : Op .and .andAnd .and
  | eq : Op .equality .eqEq .eq
  | notEq : Op .equality .notEq .notEq
  | gt : Op .comparison .gt .gt
  | lt : Op .comparison .lt .lt
  | gtEq : Op .comparison .gtEq .gtEq
  | ltEq : Op .comparison .ltEq .ltEq

inductive Nonterminal where
  | binary (l : Level)
  | unary
  | primary

def Level.operand : Level → Nonterminal
  | or => .binary .and
  | and => .binary .equality
  | equality => .binary .comparison
  | comparison => .unary

/-- What is derived: one nonterminal, or any number of operators of a level with their operands. -/
inductive Rule where
  | one (n : Nonterminal)
  | more (l : Level)

inductive TokenKind.IsLeaf : TokenKind → Prop
  | number : IsLeaf .number
  | string : IsLeaf .string
  | true : IsLeaf .true
  | false : IsLeaf .false
  | null : IsLeaf .null
  | identifier : IsLeaf .identifier

/--
Derivations by the grammar

    or         = and ( "||" and )*
    and        = equality ( "&&" equality )*
    equality   = comparison ( ("==" | "!=") comparison )*
    comparison = unary ( (">" | "<" | ">=" | "<=") unary )*
    unary      = "!" unary | primary
    primary    = number | string | true | false | null | identifier | "(" or ")"
-/
inductive Derivation : Rule → Type
  | chain {l : Level} (first : Derivation (.one l.operand)) (others : Derivation (.more l)) :
    Derivation (.one (.binary l))
  | stop {l : Level} : Derivation (.more l)
  | next {l : Level} {op : BinaryOp} (t : Token) (h : l.Op t.kind op)
    (operand : Derivation (.one l.operand)) (others : Derivation (.more l)) : Derivation (.more l)
  | not (t : Token) (h : t.kind = .bang) (operand : Derivation (.one .unary)) :
    Derivation (.one .unary)
  | primary (d : Derivation (.one .primary)) : Derivation (.one .unary)
  | leaf (t : Token) (h : t.kind.IsLeaf) : Derivation (.one .primary)
  | group (left : Token) (hl : left.kind = .lparen) (d : Derivation (.one (.binary .or)))
    (right : Token) (hr : right.kind = .rparen) : Derivation (.one .primary)

def Token.number (t : Token) : Double :=
  (Double.ofNumeral? t.value.toList).getD .nan

def Token.tree (t : Token) : Expr :=
  match t.kind with
  | .number => .number t.number t.position
  | .string => .string t.value t.position
  | .true => .bool true t.position
  | .false => .bool false t.position
  | .null => .null t.position
  | _ => .path t.value t.position

/-- A chain that goes on makes a tree of the tree that stands before it. -/
abbrev Rule.Tree : Rule → Type
  | .one _ => Expr
  | .more _ => Expr → Expr

namespace Derivation

def tokens {r : Rule} : Derivation r → List Token
  | chain first others => first.tokens ++ others.tokens
  | stop => []
  | next t _ operand others => t :: (operand.tokens ++ others.tokens)
  | not t _ operand => t :: operand.tokens
  | primary d => d.tokens
  | leaf t _ => [t]
  | group left _ d right _ => left :: (d.tokens ++ [right])

/-- The most `!` and parentheses that are open around one token. -/
def nesting {r : Rule} : Derivation r → Nat
  | chain first others => max first.nesting others.nesting
  | stop => 0
  | next _ _ operand others => max operand.nesting others.nesting
  | not _ _ operand => operand.nesting + 1
  | primary d => d.nesting
  | leaf _ _ => 0
  | group _ _ d _ _ => d.nesting + 1

/--
The tree of a derivation: operators of one level group to the left, and parentheses leave
nothing.
-/
def tree {r : Rule} : Derivation r → r.Tree
  | chain first others => others.tree first.tree
  | stop => fun before => before
  | @next _ op t _ operand others => fun before =>
    others.tree (.binary op before operand.tree t.position)
  | not t _ operand => Expr.not operand.tree t.position
  | primary d => d.tree
  | leaf t _ => t.tree
  | group _ _ d _ _ => d.tree

end Derivation

namespace Level

def rank : Level → Nat
  | or => 0
  | and => 1
  | equality => 2
  | comparison => 3

theorem Op.unique {l l' : Level} {kind : TokenKind} {op op' : BinaryOp} (h : l.Op kind op)
    (h' : l'.Op kind op') : l = l' ∧ op = op' := by
  cases h <;> cases h' <;> exact ⟨rfl, rfl⟩

end Level

def Nonterminal.rank : Nonterminal → Nat
  | binary l => l.rank
  | unary => 4
  | primary => 5

theorem Level.rank_lt_operand (l : Level) : l.rank < l.operand.rank := by
  cases l <;> decide

def Rule.rank : Rule → Nat
  | one n => n.rank
  | more l => l.rank

/-- A rule does not go on with these tokens: they start with no operator that it could take. -/
def Rule.Ends (r : Rule) (rest : List Token) : Prop :=
  ∀ t ∈ rest.head?, ∀ {l : Level} {op : BinaryOp}, l.Op t.kind op → l.rank < r.rank

theorem Rule.Ends.mono {r r' : Rule} {rest : List Token} (h : r.Ends rest)
    (hle : r.rank ≤ r'.rank) : r'.Ends rest := by
  intro t ht l op hop
  exact Nat.lt_of_lt_of_le (h t ht hop) hle

theorem Rule.ends_nil (r : Rule) : r.Ends [] := by
  intro t ht
  cases ht

namespace Derivation

theorem ends_operand {l : Level} (others : Derivation (.more l)) {rest : List Token}
    (h : Rule.Ends (.more l) rest) : Rule.Ends (.one l.operand) (others.tokens ++ rest) := by
  have hlt := l.rank_lt_operand
  cases others with
  | stop => exact h.mono (Nat.le_of_lt hlt)
  | next u hu operand others =>
    intro t ht l' op hop
    obtain rfl : u = t := Option.some.inj ht
    obtain ⟨rfl, -⟩ := hop.unique hu
    exact hlt

theorem ends_of_rparen {right : Token} (hr : right.kind = .rparen) (r : Rule) (rest : List Token) :
    r.Ends (right :: rest) := by
  intro t ht l op hop
  obtain rfl : right = t := Option.some.inj ht
  rw [hr] at hop
  cases hop

theorem kind_of_primary {d : Derivation (.one .primary)} {t : Token} {rest rest' : List Token}
    (h : d.tokens ++ rest = t :: rest') : t.kind.IsLeaf ∨ t.kind = .lparen := by
  cases d with
  | leaf u hu =>
    cases h
    exact .inl hu
  | group left hl d right hr =>
    cases h
    exact .inr hl

theorem not_bang_of_primary {d : Derivation (.one .primary)} {t : Token} {rest rest' : List Token}
    (h : d.tokens ++ rest = t :: rest') : t.kind ≠ .bang := by
  intro ht
  obtain hk | hk := kind_of_primary h
  · rw [ht] at hk
    cases hk
  · rw [ht] at hk
    cases hk

/-- Tokens have one derivation as far as a rule goes, and it goes equally far in all of them. -/
theorem unique_append {r : Rule} (d d' : Derivation r) {rest rest' : List Token}
    (h : d.tokens ++ rest = d'.tokens ++ rest') (hr : r.Ends rest) (hr' : r.Ends rest') :
    d = d' ∧ rest = rest' := by
  -- the first token tells which rule comes next; where the tokens of `d` end is not known
  -- beforehand, so what stands behind both derivations is part of what is shown
  induction d generalizing rest rest' with
  | chain first others ihf iho =>
    cases d' with
    | chain first' others' =>
      simp only [tokens, List.append_assoc] at h
      obtain ⟨rfl, hothers⟩ := ihf first' h (others.ends_operand hr) (others'.ends_operand hr')
      obtain ⟨rfl, hrest⟩ := iho others' hothers hr hr'
      exact ⟨rfl, hrest⟩
  | stop =>
    cases d' with
    | stop => exact ⟨rfl, h⟩
    | next t ht operand others =>
      subst h
      exact absurd (hr t rfl ht) (Nat.lt_irrefl _)
  | next t ht operand others ihd iho =>
    cases d' with
    | stop =>
      subst h
      exact absurd (hr' t rfl ht) (Nat.lt_irrefl _)
    | next t' ht' operand' others' =>
      simp only [tokens, List.cons_append, List.append_assoc, List.cons.injEq] at h
      obtain ⟨rfl, h⟩ := h
      obtain ⟨-, rfl⟩ := ht.unique ht'
      obtain ⟨rfl, hothers⟩ := ihd operand' h (others.ends_operand hr) (others'.ends_operand hr')
      obtain ⟨rfl, hrest⟩ := iho others' hothers hr hr'
      exact ⟨rfl, hrest⟩
  | not t ht operand ih =>
    cases d' with
    | not t' ht' operand' =>
      simp only [tokens, List.cons_append, List.cons.injEq] at h
      obtain ⟨rfl, h⟩ := h
      obtain ⟨rfl, hrest⟩ := ih operand' h hr hr'
      exact ⟨rfl, hrest⟩
    | primary d' => exact absurd ht (not_bang_of_primary h.symm)
  | primary d ih =>
    cases d' with
    | not t ht operand => exact absurd ht (not_bang_of_primary h)
    | primary d' =>
      obtain ⟨rfl, hrest⟩ := ih d' h (hr.mono (by decide)) (hr'.mono (by decide))
      exact ⟨rfl, hrest⟩
  | leaf t ht =>
    cases d' with
    | leaf t' ht' =>
      cases h
      exact ⟨rfl, rfl⟩
    | group left hl d' right hr =>
      cases h
      rw [hl] at ht
      cases ht
  | group left hl d right hclose ih =>
    cases d' with
    | leaf t ht =>
      cases h
      rw [hl] at ht
      cases ht
    | group left' hl' d' right' hclose' =>
      simp only [tokens, List.cons_append, List.append_assoc, List.cons.injEq] at h
      obtain ⟨rfl, h⟩ := h
      obtain ⟨rfl, hrest⟩ := ih d' h (ends_of_rparen hclose _ _) (ends_of_rparen hclose' _ _)
      cases hrest
      exact ⟨rfl, rfl⟩

theorem unique {r : Rule} {d d' : Derivation r} (h : d.tokens = d'.tokens) : d = d' := by
  have happend : d.tokens ++ [] = d'.tokens ++ [] := by rw [h]
  exact (unique_append d d' happend r.ends_nil r.ends_nil).1

end Derivation

end PageFlow
