import PageFlow.Proofs.Expr.Parsing

namespace PageFlow

def Accepted (ts : List Token) : Prop :=
  ∃ d : WholeDerivation, d.tokens = ts ∧ d.nesting ≤ 256

/-- The tokens can be continued to an expression. -/
def Viable (ts : List Token) : Prop :=
  ∃ more, Accepted (ts ++ more)

theorem Level.rank_operand (l : Level) : l.operand.rank = l.rank + 1 := by
  cases l <;> rfl

theorem Level.rank_injective {l l' : Level} (h : l.rank = l'.rank) : l = l' := by
  cases l <;> cases l' <;> first | rfl | cases h

theorem Rule.Ends.of_head {r : Rule} {rest rest' : List Token} (h : r.Ends rest)
    (hhead : rest.head? = rest'.head?) : r.Ends rest' := by
  intro t ht
  exact h t (hhead ▸ ht)

theorem Rule.ends_of_eof {last : Token} (hlast : last.kind = .eof) (r : Rule) (rest : List Token) :
    r.Ends (last :: rest) := by
  intro t ht l op hop
  obtain rfl : last = t := Option.some.inj ht
  rw [hlast] at hop
  cases hop

/--
Tokens start what a rule derives, but not together with the token `t`, whatever follows it and
wherever the rule ends.
-/
structure Rule.Halts (r : Rule) (budget : Nat) (before : List Token) (t : Token) : Prop where
  starts : ∃ d : Derivation r, d.nesting ≤ budget ∧ before <+: d.tokens
  blocks : ∀ (d : Derivation r) (rest more : List Token), d.nesting ≤ budget → r.Ends rest →
    d.tokens ++ rest ≠ before ++ t :: more

namespace Derivation

/-- Every nonterminal derives something without `!` and parentheses. -/
theorem exists_flat (n : Nonterminal) : ∃ d : Derivation (.one n), d.nesting = 0 := by
  have hprimary : ∃ d : Derivation (.one .primary), d.nesting = 0 :=
    ⟨.leaf ⟨.null, "null", 0, 4⟩ .null, rfl⟩
  have hunary : ∃ d : Derivation (.one .unary), d.nesting = 0 := by
    obtain ⟨d, hd⟩ := hprimary
    exact ⟨.primary d, hd⟩
  have hchain : ∀ l : Level, (∃ d : Derivation (.one l.operand), d.nesting = 0) →
      ∃ d : Derivation (.one (.binary l)), d.nesting = 0 := by
    intro l ⟨d, hd⟩
    refine ⟨.chain d .stop, ?_⟩
    rw [nesting, hd]
    rfl
  have hcomparison := hchain .comparison hunary
  have hequality := hchain .equality hcomparison
  have hand := hchain .and hequality
  have hor := hchain .or hand
  cases n with
  | primary => exact hprimary
  | unary => exact hunary
  | binary l => cases l <;> assumption

theorem head_of_unary {d : Derivation (.one .unary)} {t : Token} {rest rest' : List Token}
    (h : d.tokens ++ rest = t :: rest') :
    t.kind = .bang ∨ t.kind.IsLeaf ∨ t.kind = .lparen := by
  cases d with
  | not u hu operand =>
    cases h
    exact .inl hu
  | primary d => exact .inr (kind_of_primary h)

end Derivation

namespace Rule.Halts

variable {r : Rule} {l : Level} {op : BinaryOp} {budget : Nat} {before after : List Token}
  {t u : Token}

theorem starts_nil (n : Nonterminal) (budget : Nat) :
    ∃ d : Derivation (.one n), d.nesting ≤ budget ∧ [] <+: d.tokens := by
  obtain ⟨d, hd⟩ := Derivation.exists_flat n
  exact ⟨d, hd ▸ Nat.zero_le _, List.nil_prefix⟩

/-- What a derivation is followed by starts in the same way, whatever comes after the fault. -/
theorem ends_again (hends : r.Ends (before ++ t :: after)) (more : List Token) :
    r.Ends (before ++ t :: more) := by
  apply hends.of_head
  cases before <;> rfl

/-- The first operand of a chain is at fault. -/
theorem first (h : (Rule.one l.operand).Halts budget before t) :
    (Rule.one (.binary l)).Halts budget before t := by
  constructor
  · obtain ⟨d, hn, hstart⟩ := h.starts
    refine ⟨.chain d .stop, Nat.max_le.2 ⟨hn, Nat.zero_le _⟩, ?_⟩
    exact hstart.trans (List.prefix_append _ _)
  · intro d rest more hn hends heq
    cases d with
    | chain first others =>
      rw [Derivation.nesting, Nat.max_le] at hn
      rw [Derivation.tokens, List.append_assoc] at heq
      exact h.blocks first _ more hn.1 (others.ends_operand hends) heq

/-- What follows the first operand of a chain is at fault. -/
theorem afterFirst {first : Derivation (.one l.operand)} (hn : first.nesting ≤ budget)
    (hends : (Rule.one l.operand).Ends (before ++ t :: after))
    (h : (Rule.more l).Halts budget before t) :
    (Rule.one (.binary l)).Halts budget (first.tokens ++ before) t := by
  constructor
  · obtain ⟨others, hothers, hstart⟩ := h.starts
    refine ⟨.chain first others, Nat.max_le.2 ⟨hn, hothers⟩, ?_⟩
    exact (List.prefix_append_right_inj _).2 hstart
  · intro d rest more hd hrest heq
    cases d with
    | chain first' others =>
      rw [Derivation.nesting, Nat.max_le] at hd
      rw [Derivation.tokens, List.append_assoc, List.append_assoc] at heq
      obtain ⟨rfl, hothers⟩ := Derivation.unique_append first' first heq
        (others.ends_operand hrest) (ends_again hends more)
      exact h.blocks others rest more hd.2 hrest hothers

theorem next (hop : l.Op u.kind op) (h : (Rule.one l.operand).Halts budget before t) :
    (Rule.more l).Halts budget (u :: before) t := by
  constructor
  · obtain ⟨d, hn, hstart⟩ := h.starts
    refine ⟨.next u hop d .stop, Nat.max_le.2 ⟨hn, Nat.zero_le _⟩, ?_⟩
    exact (List.prefix_cons_inj u).2 (hstart.trans (List.prefix_append _ _))
  · intro d rest more hn hends heq
    cases d with
    | stop =>
      cases heq
      exact Nat.lt_irrefl _ (hends u rfl hop)
    | next v hv operand others =>
      rw [Derivation.nesting, Nat.max_le] at hn
      rw [Derivation.tokens, List.cons_append, List.append_assoc] at heq
      exact h.blocks operand _ more hn.1 (others.ends_operand hends) (List.cons.inj heq).2

theorem afterNext (hop : l.Op u.kind op) {operand : Derivation (.one l.operand)}
    (hn : operand.nesting ≤ budget) (hends : (Rule.one l.operand).Ends (before ++ t :: after))
    (h : (Rule.more l).Halts budget before t) :
    (Rule.more l).Halts budget (u :: (operand.tokens ++ before)) t := by
  constructor
  · obtain ⟨others, hothers, hstart⟩ := h.starts
    refine ⟨.next u hop operand others, Nat.max_le.2 ⟨hn, hothers⟩, ?_⟩
    exact (List.prefix_cons_inj u).2 ((List.prefix_append_right_inj _).2 hstart)
  · intro d rest more hd hrest heq
    cases d with
    | stop =>
      cases heq
      exact Nat.lt_irrefl _ (hrest u rfl hop)
    | next v hv operand' others =>
      rw [Derivation.nesting, Nat.max_le] at hd
      rw [Derivation.tokens, List.cons_append, List.cons_append, List.append_assoc,
        List.append_assoc] at heq
      obtain ⟨rfl, hothers⟩ := Derivation.unique_append operand' operand (List.cons.inj heq).2
        (others.ends_operand hrest) (ends_again hends more)
      exact h.blocks others rest more hd.2 hrest hothers

theorem unary_head (ht : ¬ (t.kind = .bang ∨ t.kind.IsLeaf ∨ t.kind = .lparen)) :
    (Rule.one .unary).Halts budget [] t := by
  constructor
  · exact starts_nil .unary budget
  · intro d rest more hn hends heq
    exact ht (Derivation.head_of_unary heq)

/-- The token would nest deeper than it may. -/
theorem unary_deep (ht : t.kind = .bang ∨ t.kind = .lparen) : (Rule.one .unary).Halts 0 [] t := by
  constructor
  · exact starts_nil .unary 0
  · intro d rest more hn hends heq
    cases d with
    | not u hu operand => exact Nat.not_succ_le_zero _ hn
    | primary d =>
      cases d with
      | leaf u hu =>
        cases heq
        rcases ht with ht | ht <;> rw [ht] at hu <;> cases hu
      | group left hl d right hr => exact Nat.not_succ_le_zero _ hn

theorem not (hu : u.kind = .bang) (h : (Rule.one .unary).Halts budget before t) :
    (Rule.one .unary).Halts (budget + 1) (u :: before) t := by
  constructor
  · obtain ⟨d, hn, hstart⟩ := h.starts
    exact ⟨.not u hu d, Nat.succ_le_succ hn, (List.prefix_cons_inj u).2 hstart⟩
  · intro d rest more hn hends heq
    cases d with
    | not v hv operand =>
      exact h.blocks operand rest more (Nat.le_of_succ_le_succ hn) hends (List.cons.inj heq).2
    | primary d => exact Derivation.not_bang_of_primary heq hu

/-- Behind an opening parenthesis an operand is what stands between it and its closing one. -/
theorem of_lparen (hu : u.kind = .lparen) {ts : List Token}
    (h : ∀ (d : WholeDerivation) (right : Token) (rest : List Token), d.nesting ≤ budget →
      right.kind = .rparen → d.tokens ++ right :: rest ≠ ts) {d : Derivation (.one .unary)}
    {rest : List Token} (hn : d.nesting ≤ budget + 1) : d.tokens ++ rest ≠ u :: ts := by
  intro heq
  cases d with
  | not v hv operand =>
    cases heq
    rw [hu] at hv
    cases hv
  | primary d =>
    cases d with
    | leaf v hv =>
      cases heq
      rw [hu] at hv
      cases hv
    | group left hl d right hr =>
      have htail : d.tokens ++ [right] ++ rest = ts := (List.cons.inj heq).2
      rw [List.append_assoc] at htail
      exact h d right rest (Nat.le_of_succ_le_succ hn) hr htail

theorem group (hu : u.kind = .lparen) (h : (Rule.one (.binary .or)).Halts budget before t) :
    (Rule.one .unary).Halts (budget + 1) (u :: before) t := by
  constructor
  · obtain ⟨d, hn, hstart⟩ := h.starts
    refine ⟨.primary (.group u hu d ⟨.rparen, ")", 0, 1⟩ rfl), Nat.succ_le_succ hn, ?_⟩
    exact (List.prefix_cons_inj u).2 (hstart.trans (List.prefix_append _ _))
  · intro d rest more hn hends
    apply of_lparen hu _ hn
    intro inner right others hinner hr
    exact h.blocks inner _ more hinner (Derivation.ends_of_rparen hr _ _)

theorem unclosed (hu : u.kind = .lparen) {d : WholeDerivation} (hn : d.nesting ≤ budget)
    (hends : (Rule.one (.binary .or)).Ends (t :: after)) (ht : t.kind ≠ .rparen) :
    (Rule.one .unary).Halts (budget + 1) (u :: d.tokens) t := by
  constructor
  · refine ⟨.primary (.group u hu d ⟨.rparen, ")", 0, 1⟩ rfl), Nat.succ_le_succ hn, ?_⟩
    exact (List.prefix_cons_inj u).2 (List.prefix_append _ _)
  · intro d' rest more hd' _
    apply of_lparen hu _ hd'
    intro inner right others _ hr heq
    have hright := Derivation.ends_of_rparen hr (.one (.binary .or)) others
    have hafter : (Rule.one (.binary .or)).Ends (t :: more) := hends.of_head rfl
    obtain ⟨-, hrest⟩ := Derivation.unique_append inner d heq hright hafter
    obtain ⟨rfl, -⟩ := List.cons.inj hrest
    exact ht hr

end Rule.Halts

namespace Parser

/-- A reader takes all that its rule can go on with. -/
def Exhausts (n : Nonterminal) (read : Operand) : Prop :=
  ∀ (ts : List Token) (e : Expr) (rest : List Token), Gives (read ts) e rest →
    (Rule.one n).Ends rest

/-- The flaw is at the first token with which a rule can not go on; the tokens end with `last`. -/
def At (last : Token) (budget : Nat) (r : Rule) (ts : List Token) (flaw : Flaw) : Prop :=
  ∃ before t after, ts ++ [last] = before ++ t :: after ∧ flaw.offset = t.position ∧
    r.Halts budget before t

structure Points (last : Token) (budget : Nat) (n : Nonterminal) (read : Operand) : Prop where
  sound : n.Sound budget read
  exhausts : Exhausts n read
  points : ∀ (ts : List Token) (flaw : Flaw), (∀ t ∈ ts, t.Readable) → read ts = .error flaw →
    At last budget (.one n) ts flaw

variable {last : Token} {budget : Nat} {l : Level} {operand : Operand}

theorem At.head {r : Rule} {t : Token} {after : List Token} {flaw : Flaw}
    (hoffset : flaw.offset = t.position) (h : r.Halts budget [] t) :
    At last budget r (t :: after) flaw :=
  ⟨[], t, after ++ [last], rfl, hoffset, h⟩

theorem At.cons {r r' : Rule} {budget' : Nat} {u : Token} {after : List Token} {flaw : Flaw}
    (h : At last budget r after flaw)
    (hcons : ∀ before t, r.Halts budget before t → r'.Halts budget' (u :: before) t) :
    At last budget' r' (u :: after) flaw := by
  obtain ⟨before, t, others, hsplit, hoffset, hhalts⟩ := h
  refine ⟨u :: before, t, others, ?_, hoffset, hcons before t hhalts⟩
  rw [List.cons_append, hsplit, List.cons_append]

theorem ends_append {r : Rule} {rest : List Token} (hlast : last.kind = .eof) (h : r.Ends rest) :
    r.Ends (rest ++ [last]) := by
  cases rest with
  | nil => exact Rule.ends_of_eof hlast r []
  | cons t rest => exact h.of_head rfl

theorem extend_exhausts (ho : Exhausts l.operand operand) {left e : Expr} {ts rest : List Token}
    (hts : (Rule.one l.operand).Ends ts) (h : Gives (extend l.op? operand left ts) e rest) :
    (Rule.one (.binary l)).Ends rest := by
  induction hlength : ts.length using Nat.strong_induction_on generalizing left ts with
  | _ length ih =>
    subst hlength
    cases ts with
    | nil =>
      obtain ⟨-, rfl⟩ := gives_extend_nil.1 h
      exact Rule.ends_nil _
    | cons t after =>
      cases ht : l.op? t.kind with
      | none =>
        obtain ⟨-, rfl⟩ := (gives_extend_stop ht).1 h
        intro u hu l' op hop
        obtain rfl : t = u := Option.some.inj hu
        have hlt : l'.rank < l.operand.rank := hts t rfl hop
        rw [l.rank_operand] at hlt
        apply Nat.lt_of_le_of_ne (Nat.le_of_lt_succ hlt)
        intro heq
        obtain rfl := Level.rank_injective heq
        rw [Level.op?_iff.2 hop] at ht
        cases ht
      | some op =>
        obtain ⟨right, mid, hright, hmore⟩ := (gives_extend_next ht).1 h
        have hmid : mid.length < (t :: after).length := Nat.lt_succ_of_lt hright.1
        exact ih _ hmid (ho _ _ _ hright) hmore rfl

theorem extend_points (hlast : last.kind = .eof) (ho : Points last budget l.operand operand)
    (left : Expr) {ts : List Token} {flaw : Flaw} (hr : ∀ t ∈ ts, t.Readable)
    (h : extend l.op? operand left ts = .error flaw) : At last budget (.more l) ts flaw := by
  induction hlength : ts.length using Nat.strong_induction_on generalizing left ts with
  | _ length ih =>
    subst hlength
    rw [extend.eq_def] at h
    split at h
    · cases h
    next u after =>
    have hafter := (List.forall_mem_cons.1 hr).2
    split at h
    · cases h
    next op hu =>
    have hop := Level.op?_iff.1 hu
    split at h
    · next hoperand =>
      cases h
      have hat := ho.points _ _ hafter hoperand
      exact hat.cons fun before t hhalts => hhalts.next hop
    · next right mid hmid hoperand =>
      split at h
      · next hextend =>
        cases h
        have hgives : Gives (operand after) right mid := ⟨hmid, hoperand⟩
        have hreadable := readable_of_gives ho.sound hgives hafter
        obtain ⟨before, t, others, hsplit, hoffset, hhalts⟩ :=
          ih _ (Nat.lt_succ_of_lt hmid) _ hreadable hextend rfl
        obtain ⟨d, rfl, hn, -⟩ := ho.sound _ _ _ hgives
        have hends := ends_append hlast (ho.exhausts _ _ _ hgives)
        rw [hsplit] at hends
        refine ⟨u :: (d.tokens ++ before), t, others, ?_, hoffset, hhalts.afterNext hop hn hends⟩
        rw [List.cons_append, List.append_assoc, hsplit, List.cons_append, List.append_assoc]
      · cases h

theorem chain_points (hlast : last.kind = .eof) (ho : Points last budget l.operand operand) :
    Points last budget (.binary l) (chain l.op? operand) := by
  constructor
  case sound => exact chain_sound ho.sound
  case exhausts =>
    intro ts e rest h
    obtain ⟨left, mid, hleft, hmore⟩ := gives_chain.1 h
    exact extend_exhausts ho.exhausts (ho.exhausts _ _ _ hleft) hmore
  case points =>
    intro ts flaw hr h
    unfold chain at h
    split at h
    · next hoperand =>
      cases h
      obtain ⟨before, t, after, hsplit, hoffset, hhalts⟩ := ho.points _ _ hr hoperand
      exact ⟨before, t, after, hsplit, hoffset, hhalts.first⟩
    next left mid hmid hoperand =>
    split at h
    · next hextend =>
      cases h
      have hgives : Gives (operand ts) left mid := ⟨hmid, hoperand⟩
      have hreadable := readable_of_gives ho.sound hgives hr
      obtain ⟨before, t, after, hsplit, hoffset, hhalts⟩ :=
        extend_points hlast ho left hreadable hextend
      obtain ⟨d, rfl, hn, -⟩ := ho.sound _ _ _ hgives
      have hends := ends_append hlast (ho.exhausts _ _ _ hgives)
      rw [hsplit] at hends
      refine ⟨d.tokens ++ before, t, after, ?_, hoffset, hhalts.afterFirst hn hends⟩
      rw [List.append_assoc, hsplit, List.append_assoc]
    · cases h

theorem levels_points (hlast : last.kind = .eof) {innermost : Operand}
    (h : Points last budget .unary innermost) :
    Points last budget (.binary .or) (levels innermost) := by
  have hcomparison := chain_points (l := .comparison) hlast h
  have hequality := chain_points (l := .equality) hlast hcomparison
  have hand := chain_points (l := .and) hlast hequality
  exact chain_points (l := .or) hlast hand

theorem ends_unary (rest : List Token) : (Rule.one .unary).Ends rest := by
  intro t ht l op hop
  cases l <;> decide

theorem leaf_flaw {t : Token} {flaw : Flaw} (hr : t.Readable) (h : leaf t = .error flaw) :
    ¬ t.kind.IsLeaf ∧ flaw.offset = t.position := by
  constructor
  · intro hk
    rw [leaf_of_isLeaf hk hr] at h
    cases h
  · unfold leaf at h
    split at h
    · split at h
      · cases h
      · cases h
        rfl
    all_goals cases h
    rfl

theorem unary_points (hlast : last.kind = .eof)
    (ih : ∀ inside < budget, Points last inside .unary (unary last.position inside))
    {ts : List Token} {flaw : Flaw} (hr : ∀ t ∈ ts, t.Readable)
    (h : unary last.position budget ts = .error flaw) : At last budget (.one .unary) ts flaw := by
  cases ts with
  | nil =>
    rw [unary_nil] at h
    cases h
    refine ⟨[], last, [], rfl, rfl, .unary_head ?_⟩
    rw [hlast]
    rintro (hbang | hisLeaf | hparen)
    · cases hbang
    · cases hisLeaf
    · cases hparen
  | cons t after =>
    have hafter := (List.forall_mem_cons.1 hr).2
    by_cases hb : t.kind = .bang
    · cases budget with
      | zero =>
        rw [unary_zero (.inl hb)] at h
        cases h
        exact .head rfl (.unary_deep (.inl hb))
      | succ inside =>
        rw [unary_bang hb] at h
        cases hinner : unary last.position inside after with
        | ok read =>
          rw [hinner] at h
          cases h
        | error inner =>
          rw [hinner] at h
          cases h
          have hat := (ih inside (Nat.lt_succ_self _)).points _ _ hafter hinner
          exact hat.cons fun before u hhalts => hhalts.not hb
    by_cases hp : t.kind = .lparen
    · cases budget with
      | zero =>
        rw [unary_zero (.inr hp)] at h
        cases h
        exact .head rfl (.unary_deep (.inr hp))
      | succ inside =>
        have hlevels := levels_points hlast (ih inside (Nat.lt_succ_self _))
        cases hinner : levels (unary last.position inside) after with
        | error inner =>
          rw [unary_lparen_error hp hinner] at h
          cases h
          have hat := hlevels.points _ _ hafter hinner
          exact hat.cons fun before u hhalts => hhalts.group hp
        | ok read =>
          obtain ⟨e, rest, hrest⟩ := read
          have hgives : Gives (levels (unary last.position inside) after) e rest := ⟨hrest, hinner⟩
          obtain ⟨d, htokens, hn, -⟩ := hlevels.sound _ _ _ hgives
          have hends := ends_append hlast (hlevels.exhausts _ _ _ hgives)
          cases rest with
          | nil =>
            rw [unary_lparen_end hp hinner] at h
            cases h
            refine ⟨t :: d.tokens, last, [], ?_, rfl, .unclosed hp hn hends ?_⟩
            · rw [← htokens]
              simp
            · simp [hlast]
          | cons next rest =>
            rw [unary_lparen_next hp hinner] at h
            by_cases hclose : next.kind = .rparen
            · rw [if_pos hclose] at h
              cases h
            · rw [if_neg hclose] at h
              cases h
              refine ⟨t :: d.tokens, next, rest ++ [last], ?_, rfl, .unclosed hp hn hends hclose⟩
              rw [← htokens]
              simp
    · rw [unary_leaf hb hp] at h
      cases hleaf : leaf t with
      | ok e =>
        rw [hleaf] at h
        cases h
      | error leafFlaw =>
        rw [hleaf] at h
        cases h
        obtain ⟨hk, hoffset⟩ := leaf_flaw (hr t List.mem_cons_self) hleaf
        refine .head hoffset (.unary_head ?_)
        rintro (hbang | hisLeaf | hparen)
        · exact hb hbang
        · exact hk hisLeaf
        · exact hp hparen

theorem unary_pointed (hlast : last.kind = .eof) (budget : Nat) :
    Points last budget .unary (unary last.position budget) := by
  induction budget using Nat.strong_induction_on with
  | _ budget ih =>
    constructor
    case sound => exact (unary_faithful last.position budget).sound
    case exhausts => exact fun ts e rest h => ends_unary rest
    case points => exact fun ts flaw hr h => unary_points hlast ih hr h

theorem whole_points (hlast : last.kind = .eof) :
    Points last nestingLimit (.binary .or) (levels (unary last.position nestingLimit)) :=
  levels_points hlast (unary_pointed hlast nestingLimit)

end Parser

structure FirstFault (before : List Token) (t : Token) : Prop where
  viable : Viable before
  not_viable : ¬ Viable (before ++ [t])
  /-- Tokens that only end too early are no expression as they are. -/
  not_accepted : t.kind = .eof → ¬ Accepted before

theorem Rule.Halts.firstFault {before : List Token} {t : Token}
    (h : (Rule.one (.binary .or)).Halts Parser.nestingLimit before t) : FirstFault before t := by
  constructor
  case viable =>
    obtain ⟨d, hn, more, hmore⟩ := h.starts
    exact ⟨more, d, hmore.symm, hn⟩
  case not_viable =>
    rintro ⟨more, d, htokens, hn⟩
    apply h.blocks d [] more hn (Rule.ends_nil _)
    rw [List.append_nil, htokens, List.append_assoc]
    rfl
  case not_accepted =>
    rintro heof ⟨d, htokens, hn⟩
    apply h.blocks d [t] [] hn (Rule.ends_of_eof heof _ [])
    rw [htokens]

/-- An expression with more behind it than can belong to it. -/
theorem firstFault_of_trailing {d : WholeDerivation} {t : Token} {after : List Token}
    (hn : d.nesting ≤ Parser.nestingLimit) (hends : (Rule.one (.binary .or)).Ends (t :: after))
    (ht : t.kind ≠ .eof) : FirstFault d.tokens t := by
  constructor
  case viable => exact ⟨[], d, (List.append_nil _).symm, hn⟩
  case not_viable =>
    rintro ⟨more, d', htokens, -⟩
    have heq : d.tokens ++ t :: more = d'.tokens ++ [] := by
      rw [htokens]
      simp
    have hhead : (Rule.one (.binary .or)).Ends (t :: more) := hends.of_head rfl
    obtain ⟨-, hrest⟩ := Derivation.unique_append d d' heq hhead (Rule.ends_nil _)
    cases hrest
  case not_accepted => exact fun heof => absurd heof ht

theorem Parser.expression_firstFault {last : Token} {inits : List Token} {flaw : Flaw}
    (hlast : last.kind = .eof) (hsome : inits ≠ []) (hkinds : ∀ t ∈ inits, t.kind ≠ .eof)
    (hr : ∀ t ∈ inits, t.Readable) (h : expression last.position inits = .error flaw) :
    ∃ before t after, inits ++ [last] = before ++ t :: after ∧ flaw.offset = t.position ∧
      FirstFault before t := by
  have hwhole := whole_points hlast
  unfold expression at h
  split at h
  · exact absurd rfl hsome
  next first others =>
  split at h
  · next hread =>
    cases h
    obtain ⟨before, t, after, hsplit, hoffset, hhalts⟩ := hwhole.points _ _ hr hread
    exact ⟨before, t, after, hsplit, hoffset, hhalts.firstFault⟩
  · cases h
  · next t after hrest hread =>
    cases h
    have hgives : Gives _ _ (t :: after) := ⟨hrest, hread⟩
    obtain ⟨d, htokens, hn, -⟩ := hwhole.sound _ _ _ hgives
    have ht : t ∈ first :: others := by
      rw [← htokens]
      exact List.mem_append_right _ List.mem_cons_self
    refine ⟨d.tokens, t, after ++ [last], ?_, rfl,
      firstFault_of_trailing hn (hwhole.exhausts _ _ _ hgives) (hkinds t ht)⟩
    rw [← htokens, List.append_assoc]
    rfl

/-- The error of a source that has tokens is at the first of them that is at fault. -/
theorem parse_error_firstFault {source : String} {ts : List Token} {e : ExprError}
    (htokens : tokenize source = .ok ts) (hsome : 1 < ts.length) (he : parse source = .error e) :
    ∃ before t after, ts = before ++ t :: after ∧ e.offset = t.position ∧ FirstFault before t := by
  obtain ⟨inits, rfl, hkinds, -⟩ := tiles_of_tokenize htokens
  have hne : inits ≠ [] := by
    rintro rfl
    exact Nat.lt_irrefl _ hsome
  have herror := parse_eq_error htokens he
  have hr := readable_of_tokenize htokens
  have hlast : (⟨.eof, "", source.length, 0⟩ : Token).kind = .eof := rfl
  exact Parser.expression_firstFault hlast hne hkinds hr herror

theorem parse_error_firstFault_unclosed :
    parse "(a b" = .error ⟨⟨.unclosed 0 .identifier, 3⟩, "(a b"⟩ ∧
      FirstFault [⟨.lparen, "(", 0, 1⟩, ⟨.identifier, "a", 1, 1⟩] ⟨.identifier, "b", 3, 1⟩ := by
  have hparse : parse "(a b" = .error ⟨⟨.unclosed 0 .identifier, 3⟩, "(a b"⟩ := by decide +kernel
  have htokens : tokenize "(a b" = .ok [⟨.lparen, "(", 0, 1⟩, ⟨.identifier, "a", 1, 1⟩,
      ⟨.identifier, "b", 3, 1⟩, ⟨.eof, "", 4, 0⟩] := by decide +kernel
  refine ⟨hparse, ?_⟩
  obtain ⟨before, t, after, hsplit, hoffset, hfault⟩ :=
    parse_error_firstFault htokens (by decide) hparse
  -- only the third token stands at the place of the error
  match before, hsplit, hfault with
  | [_, _], hsplit, hfault =>
    cases hsplit
    exact hfault
  | [], hsplit, _ | [_], hsplit, _ | [_, _, _], hsplit, _ =>
    cases hsplit
    cases hoffset
  | _ :: _ :: _ :: _ :: rest, hsplit, _ =>
    have hlength := congrArg List.length hsplit
    simp at hlength

end PageFlow
