import PageFlow.Proofs.Expr.Depth
import PageFlow.Proofs.Expr.Nodes
import PageFlow.Proofs.Expr.Offending

namespace PageFlow

namespace Stuck

variable {source : List Char} {flaw : Flaw}

theorem stage_eq (h : Stuck source flaw) : flaw.fault.stage = .lex := by
  obtain ⟨c, rest, -, -, -, hstops⟩ := h
  unfold Lexeme.Stops at hstops
  split at hstops
  · rcases hstops with hfault | hfault
    · rw [hfault]
      rfl
    · rw [hfault]
      rfl
  · rw [hstops]
    rfl

theorem offset_lt (h : Stuck source flaw) : flaw.offset < source.length := by
  obtain ⟨c, rest, hdrop, -⟩ := h
  have hlength := congrArg List.length hdrop
  rw [List.length_drop, List.length_cons] at hlength
  omega

end Stuck

namespace ExprFault

/-- A fault that is found in tokens, so that there is one to point at. -/
def InTokens : ExprFault → Prop
  | trailingToken _ | nestedTooDeep _ | invalidNumber _ | unclosed .. | unexpectedEnd |
    unexpectedToken _ => True
  | unexpectedCharacter _ | unterminatedString | unterminatedEscape | emptyExpression | tooDeep _ |
    path _ => False

variable {fault : ExprFault}

theorem InTokens.stage_eq (h : fault.InTokens) : fault.stage = .parse := by
  cases fault with
  | trailingToken | nestedTooDeep | invalidNumber | unclosed | unexpectedEnd |
    unexpectedToken => rfl
  | unexpectedCharacter | unterminatedString | unterminatedEscape | emptyExpression | tooDeep |
    path => exact h.elim

theorem InTokens.ne_empty (h : fault.InTokens) : fault ≠ .emptyExpression := by
  rintro rfl
  exact h

end ExprFault

namespace Parser

def Parses (read : Operand) : Prop :=
  ∀ (ts : List Token) (flaw : Flaw), read ts = .error flaw → flaw.fault.InTokens

variable {op? : TokenKind → Option BinaryOp} {operand : Operand}

theorem extend_parses (ho : Parses operand) {left : Expr} {ts : List Token} {flaw : Flaw}
    (h : extend op? operand left ts = .error flaw) : flaw.fault.InTokens := by
  fun_induction extend op? operand left ts with
  | case1 | case2 | case5 => cases h
  | case3 left t after op hop inner hinner =>
    cases h
    exact ho _ _ hinner
  | case4 left t after op hop right mid hmid hinner inner hextend ih =>
    cases h
    exact ih hextend

theorem chain_parses (ho : Parses operand) : Parses (chain op? operand) := by
  intro ts flaw h
  unfold chain at h
  split at h
  · next hoperand =>
    cases h
    exact ho _ _ hoperand
  · split at h
    · next hextend =>
      cases h
      exact extend_parses ho hextend
    · cases h

theorem levels_parses (ho : Parses operand) : Parses (levels operand) :=
  chain_parses (chain_parses (chain_parses (chain_parses ho)))

theorem leaf_inTokens {t : Token} {flaw : Flaw} (h : leaf t = .error flaw) :
    flaw.fault.InTokens := by
  unfold leaf at h
  split at h
  · split at h
    · cases h
    · cases h
      trivial
  all_goals cases h
  trivial

section

variable {stop inside : Nat} {t : Token} {after : List Token} {flaw : Flaw}

theorem unary_bang_parses (hinside : Parses (unary stop inside)) (ht : t.kind = .bang)
    (h : unary stop (inside + 1) (t :: after) = .error flaw) : flaw.fault.InTokens := by
  rw [unary_bang ht] at h
  cases hinner : unary stop inside after with
  | ok read =>
    rw [hinner] at h
    cases h
  | error inner =>
    rw [hinner] at h
    cases h
    exact hinside _ _ hinner

theorem unary_lparen_parses (hinside : Parses (unary stop inside)) (ht : t.kind = .lparen)
    (h : unary stop (inside + 1) (t :: after) = .error flaw) : flaw.fault.InTokens := by
  cases hinner : levels (unary stop inside) after with
  | error inner =>
    rw [unary_lparen_error ht hinner] at h
    cases h
    exact levels_parses hinside _ _ hinner
  | ok read =>
    obtain ⟨e, rest, hrest⟩ := read
    cases rest with
    | nil =>
      rw [unary_lparen_end ht hinner] at h
      cases h
      trivial
    | cons next rest =>
      rw [unary_lparen_next ht hinner] at h
      split at h
      · cases h
      · cases h
        trivial

end

theorem parses_of_opening {stop budget : Nat}
    (h : ∀ (t : Token) (after : List Token) (flaw : Flaw), t.kind = .bang ∨ t.kind = .lparen →
      unary stop budget (t :: after) = .error flaw → flaw.fault.InTokens) :
    Parses (unary stop budget) := by
  intro ts flaw herror
  cases ts with
  | nil =>
    rw [unary_nil] at herror
    cases herror
    trivial
  | cons t after =>
    by_cases hopen : t.kind = .bang ∨ t.kind = .lparen
    · exact h t after flaw hopen herror
    · rw [not_or] at hopen
      rw [unary_leaf hopen.1 hopen.2] at herror
      cases hleaf : leaf t with
      | ok e =>
        rw [hleaf] at herror
        cases herror
      | error inner =>
        rw [hleaf] at herror
        cases herror
        exact leaf_inTokens hleaf

theorem unary_parses (stop budget : Nat) : Parses (unary stop budget) := by
  induction budget with
  | zero =>
    apply parses_of_opening
    intro t after flaw hopen h
    rw [unary_zero hopen] at h
    cases h
    trivial
  | succ inside ih =>
    apply parses_of_opening
    intro t after flaw hopen h
    rcases hopen with hbang | hparen
    · exact unary_bang_parses ih hbang h
    · exact unary_lparen_parses ih hparen h

theorem expression_inTokens {stop : Nat} {ts : List Token} {flaw : Flaw} (hsome : ts ≠ [])
    (h : expression stop ts = .error flaw) : flaw.fault.InTokens := by
  unfold expression at h
  split at h
  · exact absurd rfl hsome
  · split at h
    · next hread =>
      cases h
      exact levels_parses (unary_parses stop nestingLimit) _ _ hread
    · cases h
    · cases h
      trivial

end Parser

namespace Expr

variable {vars : Variables} {limit depth : Nat} {e : Expr} {flaw : Flaw}

theorem mem_nodes_of_visits {v : Nat × Expr} (h : v ∈ e.visits vars depth) :
    v ∈ e.nodes depth := by
  induction e generalizing depth with
  | number | string | bool | null | path => exact h
  | not operand pos ih =>
    rw [visits, List.mem_cons] at h
    rw [nodes, List.mem_cons]
    exact h.imp_right ih
  | binary op left right pos ihLeft ihRight =>
    rw [nodes, List.mem_append, List.mem_cons]
    rcases mem_visits_binary h with hv | hv | ⟨-, hv⟩
    · exact .inr (.inl hv)
    · exact .inl (ihLeft hv)
    · exact .inr (.inr (ihRight hv))

theorem meaning_error (h : e.meaning vars = .error flaw) : ∃ name fault,
    path name flaw.offset ∈ e.inOrder ∧ Path.resolve name vars = .error fault ∧
      flaw.fault = .path fault := by
  induction e generalizing flaw with
  | number | string | bool | null => cases h
  | path name pos =>
    rw [meaning] at h
    cases hresolve : Path.resolve name vars with
    | ok value =>
      rw [hresolve] at h
      cases h
    | error fault =>
      rw [hresolve] at h
      cases h
      exact ⟨name, fault, List.mem_singleton_self _, hresolve, rfl⟩
  | not operand pos ih =>
    rw [meaning] at h
    cases hoperand : operand.meaning vars with
    | ok value =>
      rw [hoperand] at h
      cases h
    | error inner =>
      rw [hoperand] at h
      cases h
      obtain ⟨name, fault, hmem, hfault⟩ := ih hoperand
      rw [inOrder_not]
      exact ⟨name, fault, List.mem_cons_of_mem _ hmem, hfault⟩
  | binary op left right pos ihLeft ihRight =>
    rw [meaning] at h
    rw [inOrder_binary]
    rcases BinaryOp.apply_eq_error h with hleft | hright
    · obtain ⟨name, fault, hmem, hfault⟩ := ihLeft hleft
      exact ⟨name, fault, List.mem_append_left _ hmem, hfault⟩
    · obtain ⟨name, fault, hmem, hfault⟩ := ihRight hright
      exact ⟨name, fault, List.mem_append_right _ (List.mem_cons_of_mem _ hmem), hfault⟩

/-- Where evaluation of a tree can stop: at a path without a value, or below the limit. -/
inductive Blames (vars : Variables) (limit : Nat) (e : Expr) : Flaw → Prop
  | path {name : String} {pos : Nat} {fault : PathFault} (h : path name pos ∈ e.inOrder)
    (hresolve : Path.resolve name vars = .error fault) : Blames vars limit e ⟨.path fault, pos⟩
  | deep {depth : Nat} {node : Expr} (h : (depth, node) ∈ e.nodes 0) (hdeep : limit < depth) :
    Blames vars limit e ⟨.tooDeep limit, node.pos⟩

theorem blames_of_evalAt (h : e.evalAt limit vars 0 = .error flaw) : e.Blames vars limit flaw := by
  rw [evalAt_eq (Nat.zero_le _)] at h
  cases hfirst : firstAt? (limit + 1) (e.visits vars 0) with
  | none =>
    rw [limited_of_none hfirst] at h
    obtain ⟨name, fault, hmem, hresolve, hfault⟩ := meaning_error h
    obtain ⟨kind, offset⟩ := flaw
    cases hfault
    exact .path hmem hresolve
  | some node =>
    rw [limited_of_firstAt? hfirst] at h
    cases h
    obtain ⟨⟨depth, found⟩, hfind, rfl⟩ := Option.map_eq_some_iff.1 hfirst
    have hdepth : depth = limit + 1 := by simpa using List.find?_some hfind
    exact .deep (mem_nodes_of_visits (List.mem_of_find?_eq_some hfind)) (by omega)

theorem Blames.stage_eq (h : e.Blames vars limit flaw) : flaw.fault.stage = .eval := by
  cases h with
  | path | deep => rfl

theorem Blames.offset_mem (h : e.Blames vars limit flaw) :
    flaw.offset ∈ e.inOrder.map Expr.pos := by
  cases h with
  | path h => exact List.mem_map_of_mem h
  | deep h =>
    rw [inOrder, List.map_map]
    exact List.mem_map_of_mem h

end Expr

/-- The error is one of this source, and points at a character or a token of it. -/
structure ExprError.PointsInto (e : ExprError) (source : String) : Prop where
  source_eq : e.source = source
  offset_le : e.offset ≤ source.length
  lex : e.stage = .lex → e.offset < source.length
  empty : e.fault = .emptyExpression → e.offset = 0
  token : e.stage ≠ .lex → e.fault ≠ .emptyExpression →
    ∃ ts, tokenize source = .ok ts ∧ ∃ t ∈ ts, t.position = e.offset

section

variable {limit : Nat} {vars : Variables} {source : String} {e : ExprError} {tree : Expr}
  {ts inits : List Token} {t last : Token}

theorem ExprError.ne_empty_of_stage (h : e.stage ≠ .parse) : e.fault ≠ .emptyExpression := by
  intro hempty
  rw [ExprError.stage, hempty] at h
  exact h rfl

theorem pointsInto_of_tokenize (h : tokenize source = .error e) : e.PointsInto source := by
  obtain ⟨hsource, inits, -, hstuck⟩ := stuck_of_tokenize h
  have hlt : e.offset < source.length := hstuck.offset_lt
  have hstage : e.stage = .lex := hstuck.stage_eq
  have hsome : e.fault ≠ .emptyExpression := ExprError.ne_empty_of_stage (by simp [hstage])
  exact ⟨hsource, Nat.le_of_lt hlt, fun _ => hlt, fun hempty => absurd hempty hsome,
    fun hne => absurd hstage hne⟩

theorem Tiles.position_lt {start stop : Nat} (h : Tiles source.toList start stop ts)
    (ht : t ∈ ts) : t.position < stop := by
  have hlength := (h.reads t ht).length_pos
  have hstop := (h.inside t ht).2
  rw [Token.stop] at hstop
  omega

theorem position_le_of_tokenize (h : tokenize source = .ok ts) (ht : t ∈ ts) :
    t.position ≤ source.length := by
  obtain ⟨inits, rfl, -, htiles⟩ := tiles_of_tokenize h
  rcases List.mem_append.1 ht with ht | ht
  · exact Nat.le_of_lt (htiles.position_lt ht)
  · obtain rfl := List.mem_singleton.1 ht
    exact Nat.le_refl _

theorem positions_of_tokenize (h : tokenize source = .ok ts) :
    (ts.map Token.position).Pairwise (· < ·) := by
  obtain ⟨inits, rfl, -, htiles⟩ := tiles_of_tokenize h
  rw [List.map_append, List.pairwise_append]
  refine ⟨htiles.positions, List.pairwise_singleton _ _, ?_⟩
  intro pos hpos stop hstop
  obtain ⟨t, ht, rfl⟩ := List.mem_map.1 hpos
  obtain rfl := List.mem_singleton.1 hstop
  exact htiles.position_lt ht

theorem pointsInto_of_token (hsource : e.source = source) (hstage : e.stage ≠ .lex)
    (hsome : e.fault ≠ .emptyExpression) (htokens : tokenize source = .ok ts) (ht : t ∈ ts)
    (hpos : t.position = e.offset) : e.PointsInto source :=
  ⟨hsource, hpos ▸ position_le_of_tokenize htokens ht, fun h => absurd h hstage,
    fun h => absurd h hsome, fun _ _ => ⟨ts, htokens, t, ht, hpos⟩⟩

theorem pointsInto_of_empty (hsource : e.source = source) (h : e.toFlaw = ⟨.emptyExpression, 0⟩) :
    e.PointsInto source := by
  have hfault : e.fault = .emptyExpression := congrArg Flaw.fault h
  have hoffset : e.offset = 0 := congrArg Flaw.offset h
  have hstage : e.stage = .parse := congrArg ExprFault.stage hfault
  exact ⟨hsource, hoffset ▸ Nat.zero_le _, fun hlex => by simp [hstage] at hlex, fun _ => hoffset,
    fun _ hsome => absurd hfault hsome⟩

theorem pointsInto_of_parse (htokens : tokenize source = .ok ts) (h : parse source = .error e) :
    e.PointsInto source := by
  obtain ⟨inits, rfl, hkinds, -⟩ := tiles_of_tokenize htokens
  have herror := parse_eq_error htokens h
  have hsource : e.source = source := by
    rw [parse_of_tokenize htokens, herror] at h
    exact congrArg ExprError.source (Except.error.inj h).symm
  -- without a token the fault is at the start, which the end of the source need not be
  by_cases hinits : inits = []
  · subst hinits
    exact pointsInto_of_empty hsource (Except.error.inj herror).symm
  · have hfault : e.fault.InTokens := Parser.expression_inTokens hinits herror
    have hstage : e.stage = .parse := hfault.stage_eq
    have hlast : (⟨.eof, "", source.length, 0⟩ : Token).kind = .eof := rfl
    obtain ⟨before, t, after, hsplit, hoffset, -⟩ := Parser.expression_firstFault hlast hinits
      hkinds (readable_of_tokenize htokens) herror
    have ht : t ∈ before ++ t :: after := List.mem_append_right _ List.mem_cons_self
    exact pointsInto_of_token hsource (by simp [hstage]) hfault.ne_empty htokens (hsplit ▸ ht)
      hoffset.symm

theorem makeAll_of_parse (htokens : tokenize source = .ok ts) (h : parse source = .ok tree) :
    Token.MakeAll ts tree.inOrder := by
  obtain ⟨inits, rfl, -, -⟩ := tiles_of_tokenize htokens
  obtain ⟨d, rfl, -, rfl⟩ := (Parser.expression_iff (readable_of_tokenize htokens)).1
    ((parse_eq_ok htokens).1 h)
  have heof : ¬ (⟨.eof, "", source.length, 0⟩ : Token).kind.HasNode := by simp [TokenKind.HasNode]
  have hall : Token.MakeAll _ (d.tree.inOrder ++ []) :=
    d.makes.append ((Token.makeAll_cons_of_not heof).2 Token.makeAll_nil)
  rwa [List.append_nil] at hall

theorem increasing_of_makeAll (htokens : tokenize source = .ok ts)
    (h : Token.MakeAll ts tree.inOrder) : (tree.inOrder.map Expr.pos).Pairwise (· < ·) := by
  rw [Token.map_pos_of_makes h]
  exact (positions_of_tokenize htokens).sublist (List.filter_sublist.map _)

theorem exists_token_of_makeAll {pos : Nat} (h : Token.MakeAll ts tree.inOrder)
    (hpos : pos ∈ tree.inOrder.map Expr.pos) : ∃ t ∈ ts, t.position = pos := by
  rw [Token.map_pos_of_makes h] at hpos
  obtain ⟨t, ht, heq⟩ := List.mem_map.1 hpos
  exact ⟨t, (List.mem_filter.1 ht).1, heq⟩

theorem evaluate_eq_eval (h : parse source = .ok tree) :
    evaluate limit vars source = tree.eval limit vars source := by
  rw [evaluate, h]
  rfl

theorem blames_of_evaluate (h : parse source = .ok tree)
    (he : evaluate limit vars source = .error e) :
    e.source = source ∧ tree.Blames vars limit e.toFlaw := by
  rw [evaluate_eq_eval h, Expr.eval] at he
  cases hresult : tree.evalAt limit vars 0 with
  | ok value =>
    rw [hresult] at he
    cases he
  | error flaw =>
    rw [hresult] at he
    cases he
    exact ⟨rfl, Expr.blames_of_evalAt hresult⟩

theorem pointsInto_of_evaluate (htokens : tokenize source = .ok ts)
    (h : parse source = .ok tree) (he : evaluate limit vars source = .error e) :
    e.PointsInto source := by
  obtain ⟨hsource, hblames⟩ := blames_of_evaluate h he
  have hstage : e.stage = .eval := hblames.stage_eq
  obtain ⟨t, ht, hpos⟩ := exists_token_of_makeAll (makeAll_of_parse htokens h) hblames.offset_mem
  exact pointsInto_of_token hsource (by simp [hstage])
    (ExprError.ne_empty_of_stage (by simp [hstage])) htokens ht hpos

theorem evaluate_of_parse_error (h : parse source = .error e) :
    evaluate limit vars source = .error e := by
  rw [evaluate, h]
  rfl

theorem exists_tokens_of_parse (h : parse source = .ok tree) :
    ∃ ts, tokenize source = .ok ts := by
  cases htokens : tokenize source with
  | ok ts => exact ⟨ts, rfl⟩
  | error error =>
    rw [parse, htokens] at h
    cases h

theorem pointsInto (he : evaluate limit vars source = .error e) : e.PointsInto source := by
  cases htokens : tokenize source with
  | error error =>
    have hparse : parse source = .error error := by
      rw [parse, htokens]
      rfl
    obtain rfl : error = e := Except.error.inj ((evaluate_of_parse_error hparse).symm.trans he)
    exact pointsInto_of_tokenize htokens
  | ok ts =>
    cases hparse : parse source with
    | error error =>
      obtain rfl : error = e := Except.error.inj ((evaluate_of_parse_error hparse).symm.trans he)
      exact pointsInto_of_parse htokens hparse
    | ok tree => exact pointsInto_of_evaluate htokens hparse he

end

structure Diagnosed (limit : Nat) (vars : Variables) (source : String) : Prop where
  points : ∀ e, evaluate limit vars source = .error e → e.PointsInto source
  made : ∀ tree, parse source = .ok tree →
    ∃ ts, tokenize source = .ok ts ∧ Token.MakeAll ts tree.inOrder
  increasing : ∀ tree, parse source = .ok tree →
    (tree.inOrder.map Expr.pos).Pairwise (· < ·)
  blamed : ∀ tree e, parse source = .ok tree → evaluate limit vars source = .error e →
    tree.Blames vars limit e.toFlaw

/--
Every error of evaluation points into its source. The nodes of a tree stand where their tokens do,
in the same order, and evaluation fails at a path or below its limit.
-/
theorem evaluate_diagnosed (limit : Nat) (vars : Variables) (source : String) :
    Diagnosed limit vars source := by
  constructor
  case points =>
    intro e he
    exact pointsInto he
  case made =>
    intro tree h
    obtain ⟨ts, htokens⟩ := exists_tokens_of_parse h
    exact ⟨ts, htokens, makeAll_of_parse htokens h⟩
  case increasing =>
    intro tree h
    obtain ⟨ts, htokens⟩ := exists_tokens_of_parse h
    exact increasing_of_makeAll htokens (makeAll_of_parse htokens h)
  case blamed =>
    intro tree e h he
    exact (blames_of_evaluate h he).2

end PageFlow
