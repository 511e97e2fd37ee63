import PageFlow.Proofs.Expr.Readers
import PageFlow.Proofs.Expr.Tokens
import PageFlow.Proofs.Number.Numerals

namespace PageFlow

def Level.op? : Level → TokenKind → Option BinaryOp
  | or => Parser.orOp?
  | and => Parser.andOp?
  | equality => Parser.equalityOp?
  | comparison => Parser.comparisonOp?

theorem Level.op?_iff {l : Level} {kind : TokenKind} {op : BinaryOp} :
    l.op? kind = some op ↔ l.Op kind op := by
  constructor
  · intro h
    cases l <;> cases kind <;> cases h <;> constructor
  · intro h
    cases h <;> rfl

/-- The reader of a nonterminal, over the reader of the innermost operands. -/
def Nonterminal.reader (innermost : Parser.Operand) : Nonterminal → Parser.Operand
  | binary .or => Parser.levels innermost
  | binary .and => Parser.chain Parser.andOp?
      (Parser.chain Parser.equalityOp? (Parser.chain Parser.comparisonOp? innermost))
  | binary .equality => Parser.chain Parser.equalityOp?
      (Parser.chain Parser.comparisonOp? innermost)
  | binary .comparison => Parser.chain Parser.comparisonOp? innermost
  | unary | primary => innermost

theorem Nonterminal.reader_binary (innermost : Parser.Operand) (l : Level) :
    (binary l).reader innermost = Parser.chain l.op? (l.operand.reader innermost) := by
  cases l <;> rfl

/-- The reader of a rule takes these tokens, up to the rest, for this tree. -/
def Rule.Reads (stop budget : Nat) : (r : Rule) → r.Tree → List Token → List Token → Prop
  | .one n, e, ts, rest => Gives (n.reader (Parser.unary stop budget) ts) e rest
  | .more l, e, ts, rest => ∀ left : Expr,
    Gives (Parser.extend l.op? (l.operand.reader (Parser.unary stop budget)) left ts) (e left) rest

theorem Derivation.reads {r : Rule} (d : Derivation r) {stop budget : Nat} {rest : List Token}
    (hn : d.nesting ≤ budget) (hr : ∀ t ∈ d.tokens, t.Readable) (he : r.Ends rest) :
    r.Reads stop budget d.tree (d.tokens ++ rest) rest := by
  induction d generalizing budget rest with
  | @chain l first others ihf iho =>
    simp only [nesting, Nat.max_le] at hn
    simp only [tokens, List.forall_mem_append] at hr
    rw [tokens, List.append_assoc, Rule.Reads, Nonterminal.reader_binary, Parser.gives_chain]
    exact ⟨first.tree, _, ihf hn.1 hr.1 (others.ends_operand he), iho hn.2 hr.2 he first.tree⟩
  | @stop l =>
    intro left
    cases rest with
    | nil => exact Parser.gives_extend_nil.2 ⟨rfl, rfl⟩
    | cons t rest =>
      have ht : l.op? t.kind = none := by
        rw [Option.eq_none_iff_forall_not_mem]
        intro op hop
        exact Nat.lt_irrefl _ (he t rfl (Level.op?_iff.1 hop))
      exact (Parser.gives_extend_stop ht).2 ⟨rfl, rfl⟩
  | next t ht operand others ihd iho =>
    simp only [nesting, Nat.max_le] at hn
    simp only [tokens, List.forall_mem_cons, List.forall_mem_append] at hr
    intro left
    rw [tokens, List.cons_append, List.append_assoc,
      Parser.gives_extend_next (Level.op?_iff.2 ht)]
    exact ⟨operand.tree, _, ihd hn.1 hr.2.1 (others.ends_operand he), iho hn.2 hr.2.2 he _⟩
  | not t ht operand ih =>
    obtain ⟨inside, rfl⟩ : ∃ inside, budget = inside + 1 :=
      Nat.exists_eq_add_of_le' (Nat.le_trans (Nat.le_add_left 1 _) hn)
    simp only [tokens, List.forall_mem_cons] at hr
    exact (Parser.gives_unary_bang ht).2
      ⟨inside, operand.tree, rfl, ih (Nat.le_of_succ_le_succ hn) hr.2 he, rfl⟩
  | primary d ih => exact ih hn hr (he.mono (by decide))
  | leaf t ht =>
    have hb : t.kind ≠ .bang := by
      intro hk
      rw [hk] at ht
      cases ht
    have hp : t.kind ≠ .lparen := by
      intro hk
      rw [hk] at ht
      cases ht
    exact (Parser.gives_unary_leaf hb hp).2
      ⟨Parser.leaf_of_isLeaf ht (hr t List.mem_cons_self), rfl⟩
  | group left hl d right hclose ih =>
    obtain ⟨inside, rfl⟩ : ∃ inside, budget = inside + 1 :=
      Nat.exists_eq_add_of_le' (Nat.le_trans (Nat.le_add_left 1 _) hn)
    simp only [tokens, List.forall_mem_cons, List.forall_mem_append] at hr
    rw [tokens, List.cons_append, List.append_assoc]
    exact (Parser.gives_unary_lparen hl).2 ⟨inside, right, rfl,
      ih (Nat.le_of_succ_le_succ hn) hr.2.1 (ends_of_rparen hclose _ _), hclose⟩

def Nonterminal.Sound (budget : Nat) (n : Nonterminal) (read : Parser.Operand) : Prop :=
  ∀ (ts : List Token) (e : Expr) (rest : List Token), Gives (read ts) e rest →
    ∃ d : Derivation (.one n), d.tokens ++ rest = ts ∧ d.nesting ≤ budget ∧ d.tree = e

namespace Parser

theorem extend_sound {budget : Nat} {l : Level} {operand : Operand}
    (ho : l.operand.Sound budget operand) {left e : Expr} {ts rest : List Token}
    (h : Gives (extend l.op? operand left ts) e rest) :
    ∃ d : Derivation (.more l), d.tokens ++ rest = ts ∧ d.nesting ≤ budget ∧ d.tree left = e := by
  -- by length: what an operand leaves is shorter, but not a part of the list by its constructors
  induction hlength : ts.length using Nat.strong_induction_on generalizing left ts with
  | _ length ih =>
    subst hlength
    cases ts with
    | nil =>
      obtain ⟨rfl, rfl⟩ := gives_extend_nil.1 h
      exact ⟨.stop, rfl, Nat.zero_le _, rfl⟩
    | cons t after =>
      cases ht : l.op? t.kind with
      | none =>
        obtain ⟨rfl, rfl⟩ := (gives_extend_stop ht).1 h
        exact ⟨.stop, rfl, Nat.zero_le _, rfl⟩
      | some op =>
        obtain ⟨right, mid, hright, hmore⟩ := (gives_extend_next ht).1 h
        have hmid : mid.length < (t :: after).length := Nat.lt_succ_of_lt hright.1
        obtain ⟨d, rfl, hdn, rfl⟩ := ho _ _ _ hright
        obtain ⟨others, rfl, hon, rfl⟩ := ih _ hmid hmore rfl
        refine ⟨.next t (Level.op?_iff.1 ht) d others, ?_, Nat.max_le.2 ⟨hdn, hon⟩, rfl⟩
        rw [Derivation.tokens, List.cons_append, List.append_assoc]

theorem chain_sound {budget : Nat} {l : Level} {operand : Operand}
    (ho : l.operand.Sound budget operand) :
    Nonterminal.Sound budget (.binary l) (chain l.op? operand) := by
  intro ts e rest h
  obtain ⟨left, mid, hleft, hmore⟩ := gives_chain.1 h
  obtain ⟨d, rfl, hdn, rfl⟩ := ho _ _ _ hleft
  obtain ⟨others, rfl, hon, rfl⟩ := extend_sound ho hmore
  exact ⟨.chain d others, List.append_assoc .., Nat.max_le.2 ⟨hdn, hon⟩, rfl⟩

theorem expression_eq_ok {stop : Nat} {ts : List Token} {e : Expr} :
    expression stop ts = .ok e ↔ Gives (levels (unary stop nestingLimit) ts) e [] := by
  unfold expression
  constructor
  · intro h
    split at h
    · cases h
    · split at h
      · cases h
      · next e hrest hread =>
        cases h
        exact ⟨hrest, hread⟩
      · cases h
  · rintro ⟨hrest, hread⟩
    cases ts with
    | nil => exact absurd hrest (Nat.not_lt_zero _)
    | cons first others => simp only [hread]

variable {op? : TokenKind → Option BinaryOp}

/-- Where every number can be read, a reader never says that one cannot. -/
def Trusts (read : Operand) : Prop :=
  ∀ (ts : List Token) (flaw : Flaw) (text : String), (∀ t ∈ ts, t.Readable) →
    read ts = .error flaw → flaw.fault ≠ .invalidNumber text

structure Faithful (budget : Nat) (n : Nonterminal) (read : Operand) : Prop where
  sound : n.Sound budget read
  trusts : Trusts read

theorem readable_of_gives {budget : Nat} {n : Nonterminal} {read : Operand}
    (hs : n.Sound budget read) {ts rest : List Token} {e : Expr} (h : Gives (read ts) e rest)
    (hr : ∀ t ∈ ts, t.Readable) : ∀ t ∈ rest, t.Readable := by
  obtain ⟨d, rfl, -, -⟩ := hs _ _ _ h
  exact (List.forall_mem_append.1 hr).2

theorem leaf_fault {t : Token} {flaw : Flaw} {text : String} (hr : t.Readable)
    (h : leaf t = .error flaw) : flaw.fault ≠ .invalidNumber text := by
  unfold leaf at h
  split at h
  · next hk =>
    obtain ⟨x, hx⟩ := Option.isSome_iff_exists.1 (hr hk)
    rw [hx] at h
    cases h
  all_goals cases h
  simp

theorem extend_trusts {budget : Nat} {n : Nonterminal} {operand : Operand}
    (hs : n.Sound budget operand) (ho : Trusts operand) (left : Expr) {ts : List Token}
    {flaw : Flaw} {text : String} (hr : ∀ t ∈ ts, t.Readable)
    (h : extend op? operand left ts = .error flaw) : flaw.fault ≠ .invalidNumber text := by
  induction hlength : ts.length using Nat.strong_induction_on generalizing left ts with
  | _ length ih =>
    subst hlength
    rw [extend.eq_def] at h
    split at h
    · cases h
    · next t after =>
      have hafter := (List.forall_mem_cons.1 hr).2
      split at h
      · cases h
      · split at h
        · next hoperand =>
          cases h
          exact ho _ _ text hafter hoperand
        · next right mid hmid hoperand =>
          split at h
          · next hextend =>
            cases h
            exact ih _ (Nat.lt_succ_of_lt hmid) _
              (readable_of_gives hs ⟨hmid, hoperand⟩ hafter) hextend rfl
          · cases h

theorem chain_trusts {budget : Nat} {n : Nonterminal} {operand : Operand}
    (hs : n.Sound budget operand) (ho : Trusts operand) : Trusts (chain op? operand) := by
  intro ts flaw text hr h
  unfold chain at h
  split at h
  · next hoperand =>
    cases h
    exact ho _ _ text hr hoperand
  · next left mid hmid hoperand =>
    split at h
    · next hextend =>
      cases h
      exact extend_trusts hs ho left (readable_of_gives hs ⟨hmid, hoperand⟩ hr) hextend
    · cases h

theorem chain_faithful {budget : Nat} {l : Level} {operand : Operand}
    (h : Faithful budget l.operand operand) : Faithful budget (.binary l) (chain l.op? operand) :=
  ⟨chain_sound h.sound, chain_trusts h.sound h.trusts⟩

theorem levels_faithful {budget : Nat} {innermost : Operand}
    (h : Faithful budget .unary innermost) : Faithful budget (.binary .or) (levels innermost) := by
  have hcomparison := chain_faithful (l := .comparison) h
  have hequality := chain_faithful (l := .equality) hcomparison
  have hand := chain_faithful (l := .and) hequality
  exact chain_faithful (l := .or) hand

section

variable {stop budget : Nat}

theorem unary_sound (h : ∀ inside < budget, Faithful inside .unary (unary stop inside)) :
    Nonterminal.Sound budget .unary (unary stop budget) := by
  intro ts e rest hread
  cases ts with
  | nil => exact absurd hread not_gives_unary_nil
  | cons t after =>
    by_cases hb : t.kind = .bang
    · obtain ⟨inside, inner, rfl, hinner, rfl⟩ := (gives_unary_bang hb).1 hread
      have hinside := h inside (Nat.lt_succ_self _)
      obtain ⟨d, rfl, hn, rfl⟩ := hinside.sound _ _ _ hinner
      exact ⟨.not t hb d, rfl, Nat.succ_le_succ hn, rfl⟩
    by_cases hp : t.kind = .lparen
    · obtain ⟨inside, close, rfl, hinner, hclose⟩ := (gives_unary_lparen hp).1 hread
      have hinside := levels_faithful (h inside (Nat.lt_succ_self _))
      obtain ⟨d, rfl, hn, rfl⟩ := hinside.sound _ _ _ hinner
      refine ⟨.primary (.group t hp d close hclose), ?_, Nat.succ_le_succ hn, rfl⟩
      simp [Derivation.tokens]
    · obtain ⟨hleaf, rfl⟩ := (gives_unary_leaf hb hp).1 hread
      obtain ⟨hk, rfl⟩ := leaf_eq_ok hleaf
      exact ⟨.primary (.leaf t hk), rfl, Nat.zero_le _, rfl⟩

theorem unary_trusts (ih : ∀ inside < budget, Faithful inside .unary (unary stop inside)) :
    Trusts (unary stop budget) := by
  intro ts flaw text hr h
  cases ts with
  | nil =>
    rw [unary_nil] at h
    cases h
    simp
  | cons t after =>
    have hafter := (List.forall_mem_cons.1 hr).2
    by_cases hb : t.kind = .bang
    · cases budget with
      | zero =>
        rw [unary_zero (.inl hb)] at h
        cases h
        simp
      | succ inside =>
        rw [unary_bang hb] at h
        cases hinner : unary stop inside after with
        | error inner =>
          rw [hinner] at h
          cases h
          exact (ih inside (Nat.lt_succ_self _)).trusts _ _ text hafter hinner
        | ok read =>
          rw [hinner] at h
          cases h
    by_cases hp : t.kind = .lparen
    · cases budget with
      | zero =>
        rw [unary_zero (.inr hp)] at h
        cases h
        simp
      | succ inside =>
        cases hinner : levels (unary stop inside) after with
        | error inner =>
          rw [unary_lparen_error hp hinner] at h
          cases h
          exact (levels_faithful (ih inside (Nat.lt_succ_self _))).trusts _ _ text hafter hinner
        | ok read =>
          obtain ⟨e, rest, hrest⟩ := read
          cases rest with
          | nil =>
            rw [unary_lparen_end hp hinner] at h
            cases h
            simp
          | cons next rest =>
            rw [unary_lparen_next hp hinner] at h
            by_cases hclose : next.kind = .rparen
            · rw [if_pos hclose] at h
              cases h
            · rw [if_neg hclose] at h
              cases h
              simp
    · rw [unary_leaf hb hp] at h
      cases hleaf : leaf t with
      | error leafFlaw =>
        rw [hleaf] at h
        cases h
        exact leaf_fault (hr t List.mem_cons_self) hleaf
      | ok e =>
        rw [hleaf] at h
        cases h

end

theorem unary_faithful (stop budget : Nat) : Faithful budget .unary (unary stop budget) := by
  -- only `!` and parentheses come back to the innermost operands, with less budget
  induction budget using Nat.strong_induction_on with
  | _ budget ih => exact ⟨unary_sound ih, unary_trusts ih⟩

theorem whole_faithful (stop : Nat) :
    Faithful nestingLimit (.binary .or) (levels (unary stop nestingLimit)) :=
  levels_faithful (unary_faithful stop nestingLimit)

theorem expression_trusts (stop : Nat) {ts : List Token} {flaw : Flaw} {text : String}
    (hr : ∀ t ∈ ts, t.Readable) (h : expression stop ts = .error flaw) :
    flaw.fault ≠ .invalidNumber text := by
  unfold expression at h
  split at h
  · cases h
    simp
  · split at h
    · next hread =>
      cases h
      exact (whole_faithful stop).trusts _ _ text hr hread
    · cases h
    · cases h
      simp

end Parser

abbrev WholeDerivation := Derivation (.one (.binary .or))

theorem Parser.expression_iff {stop : Nat} {ts : List Token} (hr : ∀ t ∈ ts, t.Readable)
    {e : Expr} : expression stop ts = .ok e ↔
      ∃ d : WholeDerivation, d.tokens = ts ∧ d.nesting ≤ nestingLimit ∧ d.tree = e := by
  rw [expression_eq_ok]
  constructor
  · intro h
    obtain ⟨d, htokens, hn, htree⟩ := (whole_faithful stop).sound _ _ _ h
    rw [List.append_nil] at htokens
    exact ⟨d, htokens, hn, htree⟩
  · rintro ⟨d, rfl, hn, rfl⟩
    have hread : Gives (levels (unary stop nestingLimit) (d.tokens ++ [])) d.tree [] :=
      d.reads hn hr (Rule.ends_nil _)
    rwa [List.append_nil] at hread

theorem IsNumeral.matches_numeral {text : List Char} (h : IsNumeral text) :
    text ∈ Pattern.numeral.matches' := by
  have hbody : text ∈ Pattern.significand.matches' := by
    apply Pattern.mem_significand.2
    cases h with
    | whole h => exact .inl h
    | @point whole fraction hw hf =>
      have hne := List.append_ne_nil_of_left_ne_nil hw.1 fraction
      exact .inr ⟨whole, fraction, rfl, hne, List.forall_mem_append.2 ⟨hw.2, hf.2⟩⟩
  have htail : text ∈ (Pattern.significand * Pattern.exponent).matches' :=
    Language.mem_mul.2 ⟨text, hbody, [], Pattern.mem_exponent.2 (.inl rfl), List.append_nil text⟩
  exact Language.append_mem_mul (Pattern.mem_sign.2 (.inl rfl)) htail

theorem IsNumeral.isSome_ofNumeral? {text : List Char} (h : IsNumeral text) :
    (Double.ofNumeral? text).isSome :=
  Double.isSome_ofNumeral?_iff.2 h.matches_numeral

theorem Token.Reads.readable {source : List Char} {t : Token} (h : t.Reads source) :
    t.Readable := by
  intro hk
  have hspelled := h.spelled
  rw [hk] at hspelled
  generalize t.value.toList = value at hspelled
  generalize t.span source = span at hspelled
  cases hspelled with
  | number h => exact h.isSome_ofNumeral?
  | fixed h => cases h

theorem readable_of_tokenize {source : String} {inits : List Token} {last : Token}
    (h : tokenize source = .ok (inits ++ [last])) : ∀ t ∈ inits, t.Readable := by
  obtain ⟨ts, heq, -, htiles⟩ := tiles_of_tokenize h
  obtain rfl : inits = ts := (List.append_inj' heq rfl).1
  exact fun t ht => (htiles.reads t ht).readable

theorem parse_of_tokenize {source : String} {inits : List Token} {last : Token}
    (h : tokenize source = .ok (inits ++ [last])) :
    parse source = (Parser.expression source.length inits).mapError (·.within source) := by
  rw [parse, h]
  change Except.mapError _ (Parser.expression source.length (inits ++ [last]).dropLast) = _
  rw [List.dropLast_concat]

theorem parse_eq_ok {source : String} {inits : List Token} {last : Token}
    (h : tokenize source = .ok (inits ++ [last])) {e : Expr} :
    parse source = .ok e ↔ Parser.expression source.length inits = .ok e := by
  rw [parse_of_tokenize h]
  cases Parser.expression source.length inits with
  | error flaw => simp [Except.mapError]
  | ok tree => simp [Except.mapError]

theorem parse_eq_error {source : String} {inits : List Token} {last : Token}
    (h : tokenize source = .ok (inits ++ [last])) {e : ExprError} (he : parse source = .error e) :
    Parser.expression source.length inits = .error e.toFlaw := by
  rw [parse_of_tokenize h] at he
  cases hresult : Parser.expression source.length inits with
  | error flaw =>
    rw [hresult] at he
    cases he
    rfl
  | ok tree =>
    rw [hresult] at he
    cases he

/--
The parser accepts exactly the derivable token lists that nest no deeper than its limit, with the
tree of their only derivation, and it never fails to read a number.
-/
theorem parse_iff_derivation (source : String) :
    match tokenize source with
    | .ok ts =>
      (∀ e, parse source = .ok e ↔ ∃ d : WholeDerivation,
        d.tokens = ts.dropLast ∧ d.nesting ≤ 256 ∧ d.tree = e) ∧
      (∀ d d' : WholeDerivation, d.tokens = ts.dropLast → d'.tokens = ts.dropLast → d = d') ∧
      ∀ e text, parse source = .error e → e.fault ≠ .invalidNumber text
    | .error e => parse source = .error e := by
  cases htokens : tokenize source with
  | error e =>
    change parse source = .error e
    rw [parse, htokens]
    rfl
  | ok ts =>
    obtain ⟨inits, rfl, -, -⟩ := tiles_of_tokenize htokens
    have hr := readable_of_tokenize htokens
    simp only [List.dropLast_concat]
    refine ⟨fun e => ?_, fun d d' hd hd' => Derivation.unique (hd.trans hd'.symm),
      fun e text h => ?_⟩
    · exact (parse_eq_ok htokens).trans (Parser.expression_iff hr)
    · exact Parser.expression_trusts source.length hr (parse_eq_error htokens h)

end PageFlow
