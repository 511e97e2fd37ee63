import PageFlow.Expr.Parser
import PageFlow.Proofs.Expr.Grammar

namespace PageFlow

/-- A reader gives an expression and leaves the other tokens. -/
def Gives {P : List Token → Prop} (result : Except Flaw (Expr × { rest : List Token // P rest }))
    (e : Expr) (rest : List Token) : Prop :=
  ∃ h : P rest, result = .ok (e, ⟨rest, h⟩)

namespace Parser

variable {op? : TokenKind → Option BinaryOp} {operand : Operand}

theorem gives_extend_nil {left e : Expr} {rest : List Token} :
    Gives (extend op? operand left []) e rest ↔ e = left ∧ rest = [] := by
  rw [extend.eq_def]
  constructor
  · rintro ⟨h, heq⟩
    cases heq
    exact ⟨rfl, rfl⟩
  · rintro ⟨rfl, rfl⟩
    exact ⟨_, rfl⟩

theorem gives_extend_stop {left e : Expr} {t : Token} {after rest : List Token}
    (ht : op? t.kind = none) :
    Gives (extend op? operand left (t :: after)) e rest ↔ e = left ∧ rest = t :: after := by
  rw [extend.eq_def]
  simp only [ht]
  constructor
  · rintro ⟨h, heq⟩
    cases heq
    exact ⟨rfl, rfl⟩
  · rintro ⟨rfl, rfl⟩
    exact ⟨_, rfl⟩

theorem gives_extend_next {left e : Expr} {t : Token} {after rest : List Token} {op : BinaryOp}
    (ht : op? t.kind = some op) :
    Gives (extend op? operand left (t :: after)) e rest ↔ ∃ right mid,
      Gives (operand after) right mid ∧
        Gives (extend op? operand (.binary op left right t.position) mid) e rest := by
  rw [extend.eq_def]
  simp only [ht]
  constructor
  · rintro ⟨h, heq⟩
    split at heq
    · cases heq
    · next right mid hmid hoperand =>
      split at heq
      · cases heq
      · next e final hfinal hextend =>
        cases heq
        exact ⟨right, mid, ⟨hmid, hoperand⟩, hfinal, hextend⟩
  · rintro ⟨right, mid, ⟨hmid, hoperand⟩, hrest, hextend⟩
    rw [hoperand]
    simp only [hextend]
    exact ⟨_, rfl⟩

theorem gives_chain {ts rest : List Token} {e : Expr} :
    Gives (chain op? operand ts) e rest ↔ ∃ left mid,
      Gives (operand ts) left mid ∧ Gives (extend op? operand left mid) e rest := by
  unfold chain
  constructor
  · rintro ⟨h, heq⟩
    split at heq
    · cases heq
    · next left mid hmid hoperand =>
      split at heq
      · cases heq
      · next e final hfinal hextend =>
        cases heq
        exact ⟨left, mid, ⟨hmid, hoperand⟩, hfinal, hextend⟩
  · rintro ⟨left, mid, ⟨hmid, hoperand⟩, hrest, hextend⟩
    rw [hoperand]
    simp only [hextend]
    exact ⟨_, rfl⟩

section

variable {stop budget inside : Nat} {t : Token} {after rest : List Token} {e : Expr}

theorem unary_nil : unary stop budget [] = .error ⟨.unexpectedEnd, stop⟩ := by
  cases budget <;> rfl

theorem unary_zero (ht : t.kind = .bang ∨ t.kind = .lparen) :
    unary stop 0 (t :: after) = .error ⟨.nestedTooDeep nestingLimit, t.position⟩ := by
  change (if t.kind = .bang then _ else if t.kind = .lparen then _ else _) = _
  cases ht with
  | inl hb => rw [if_pos hb]
  | inr hp => rw [if_neg (by simp [hp]), if_pos hp]

theorem unary_bang (ht : t.kind = .bang) :
    unary stop (inside + 1) (t :: after) = (unary stop inside after).map fun read =>
      (.not read.1 t.position, ⟨read.2.1, Nat.lt_succ_of_lt read.2.2⟩) := by
  change (if t.kind = .bang then _ else _) = _
  rw [if_pos ht]
  cases unary stop inside after <;> rfl

theorem unary_leaf (hb : t.kind ≠ .bang) (hp : t.kind ≠ .lparen) :
    unary stop budget (t :: after) =
      (leaf t).map fun e => (e, ⟨after, Nat.lt_succ_self _⟩) := by
  cases budget <;>
  · change (if t.kind = .bang then _ else if t.kind = .lparen then _ else _) = _
    rw [if_neg hb, if_neg hp]

theorem unary_lparen_error (ht : t.kind = .lparen) {flaw : Flaw}
    (h : levels (unary stop inside) after = .error flaw) :
    unary stop (inside + 1) (t :: after) = .error flaw := by
  change (if t.kind = .bang then _ else if t.kind = .lparen then _ else _) = _
  rw [if_neg (by simp [ht]), if_pos ht, h]

theorem unary_lparen_end (ht : t.kind = .lparen) {hrest : ([] : List Token).length < after.length}
    (h : levels (unary stop inside) after = .ok (e, ⟨[], hrest⟩)) :
    unary stop (inside + 1) (t :: after) = .error ⟨.unclosed t.position .eof, stop⟩ := by
  change (if t.kind = .bang then _ else if t.kind = .lparen then _ else _) = _
  rw [if_neg (by simp [ht]), if_pos ht, h]

theorem unary_lparen_next (ht : t.kind = .lparen) {next : Token}
    {hrest : (next :: rest).length < after.length}
    (h : levels (unary stop inside) after = .ok (e, ⟨next :: rest, hrest⟩)) :
    unary stop (inside + 1) (t :: after) =
      if next.kind = .rparen then
        .ok (e, ⟨rest, Nat.lt_succ_of_lt (Nat.lt_of_succ_lt hrest)⟩)
      else .error ⟨.unclosed t.position next.kind, next.position⟩ := by
  change (if t.kind = .bang then _ else if t.kind = .lparen then _ else _) = _
  rw [if_neg (by simp [ht]), if_pos ht, h]

theorem not_gives_unary_nil : ¬ Gives (unary stop budget []) e rest := by
  rintro ⟨h, heq⟩
  rw [unary_nil] at heq
  cases heq

theorem gives_unary_bang (ht : t.kind = .bang) :
    Gives (unary stop budget (t :: after)) e rest ↔ ∃ inside inner, budget = inside + 1 ∧
      Gives (unary stop inside after) inner rest ∧ e = .not inner t.position := by
  constructor
  · rintro ⟨h, heq⟩
    cases budget with
    | zero =>
      rw [unary_zero (.inl ht)] at heq
      cases heq
    | succ inside =>
      rw [unary_bang ht] at heq
      cases hinner : unary stop inside after with
      | error flaw =>
        rw [hinner] at heq
        cases heq
      | ok read =>
        obtain ⟨inner, rest, hrest⟩ := read
        rw [hinner] at heq
        cases heq
        exact ⟨inside, inner, rfl, ⟨hrest, hinner⟩, rfl⟩
  · rintro ⟨inside, inner, rfl, ⟨hrest, hinner⟩, rfl⟩
    rw [unary_bang ht, hinner]
    exact ⟨_, rfl⟩

theorem gives_unary_lparen (ht : t.kind = .lparen) :
    Gives (unary stop budget (t :: after)) e rest ↔ ∃ inside close, budget = inside + 1 ∧
      Gives (levels (unary stop inside) after) e (close :: rest) ∧ close.kind = .rparen := by
  constructor
  · rintro ⟨h, heq⟩
    cases budget with
    | zero =>
      rw [unary_zero (.inr ht)] at heq
      cases heq
    | succ inside =>
      cases hinner : levels (unary stop inside) after with
      | error flaw =>
        rw [unary_lparen_error ht hinner] at heq
        cases heq
      | ok read =>
        obtain ⟨inner, others, hrest⟩ := read
        cases others with
        | nil =>
          rw [unary_lparen_end ht hinner] at heq
          cases heq
        | cons next others =>
          rw [unary_lparen_next ht hinner] at heq
          by_cases hclose : next.kind = .rparen
          · rw [if_pos hclose] at heq
            cases heq
            exact ⟨inside, next, rfl, ⟨hrest, hinner⟩, hclose⟩
          · rw [if_neg hclose] at heq
            cases heq
  · rintro ⟨inside, close, rfl, ⟨hrest, hinner⟩, hclose⟩
    rw [unary_lparen_next ht hinner, if_pos hclose]
    exact ⟨_, rfl⟩

theorem gives_unary_leaf (hb : t.kind ≠ .bang) (hp : t.kind ≠ .lparen) :
    Gives (unary stop budget (t :: after)) e rest ↔ leaf t = .ok e ∧ rest = after := by
  rw [unary_leaf hb hp]
  cases leaf t with
  | error flaw =>
    constructor
    · rintro ⟨h, heq⟩
      cases heq
    · rintro ⟨heq, -⟩
      cases heq
  | ok leaf =>
    constructor
    · rintro ⟨h, heq⟩
      cases heq
      exact ⟨rfl, rfl⟩
    · rintro ⟨heq, rfl⟩
      cases heq
      exact ⟨_, rfl⟩

end

end Parser

/-- A number is spelled so that it can be read. -/
def Token.Readable (t : Token) : Prop :=
  t.kind = .number → (Double.ofNumeral? t.value.toList).isSome

namespace Parser

theorem leaf_eq_ok {t : Token} {e : Expr} (h : leaf t = .ok e) : t.kind.IsLeaf ∧ t.tree = e := by
  unfold leaf at h
  split at h
  · next hk =>
    split at h
    · next x hx =>
      cases h
      exact ⟨hk ▸ .number, by simp [Token.tree, Token.number, hk, hx]⟩
    · cases h
  · next hk => cases h; exact ⟨hk ▸ .string, by simp [Token.tree, hk]⟩
  · next hk => cases h; exact ⟨hk ▸ .true, by simp [Token.tree, hk]⟩
  · next hk => cases h; exact ⟨hk ▸ .false, by simp [Token.tree, hk]⟩
  · next hk => cases h; exact ⟨hk ▸ .null, by simp [Token.tree, hk]⟩
  · next hk => cases h; exact ⟨hk ▸ .identifier, by simp [Token.tree, hk]⟩
  · cases h

theorem leaf_of_isLeaf {t : Token} (h : t.kind.IsLeaf) (hr : t.Readable) : leaf t = .ok t.tree := by
  unfold leaf Token.tree
  generalize hk : t.kind = kind at h
  cases h with
  | number =>
    obtain ⟨x, hx⟩ := Option.isSome_iff_exists.1 (hr hk)
    simp [Token.number, hx]
  | string | true | false | null | identifier => rfl

end Parser

end PageFlow
