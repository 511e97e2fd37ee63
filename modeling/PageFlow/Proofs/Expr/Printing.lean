import PageFlow.Proofs.Expr.Parsing
import PageFlow.Proofs.Expr.Spacing

namespace PageFlow

namespace BinaryOp

def level : BinaryOp → Level
  | or => .or
  | and => .and
  | eq | notEq => .equality
  | gt | lt | gtEq | ltEq => .comparison

def kind : BinaryOp → TokenKind
  | or => .orOr
  | and => .andAnd
  | eq => .eqEq
  | notEq => .notEq
  | gt => .gt
  | lt => .lt
  | gtEq => .gtEq
  | ltEq => .ltEq

theorem level_op (op : BinaryOp) : op.level.Op op.kind op := by
  cases op <;> constructor

theorem spells_symbol (op : BinaryOp) : Spells op.kind op.symbol.toList op.symbol.toList := by
  apply Spells.fixed
  cases op <;> rfl

end BinaryOp

namespace Expr

def bare : Expr → Expr
  | number x _ => .number x 0
  | string s _ => .string s 0
  | bool b _ => .bool b 0
  | null _ => .null 0
  | path name _ => .path name 0
  | not e _ => .not e.bare 0
  | binary op l r _ => .binary op l.bare r.bare 0

def names : Expr → List String
  | path name _ => [name]
  | not e _ => e.names
  | binary _ l r _ => l.names ++ r.names
  | number .. | string .. | bool .. | null _ => []

def numbers : Expr → List Double
  | number x _ => [x]
  | not e _ => e.numbers
  | binary _ l r _ => l.numbers ++ r.numbers
  | path .. | string .. | bool .. | null _ => []

end Expr

/-- What can be read as the name of a path. -/
def IsName (name : String) : Prop :=
  IsWord name.toList ∧ name ≠ "true" ∧ name ≠ "false" ∧ name ≠ "null"

def escape (quote : Char) (s : List Char) : List Char :=
  s.flatMap fun c => if c = quote ∨ c = '\\' then ['\\', c] else [c]

inductive LeafText : Expr → List Char → Prop
  | number {text : List Char} {x : Double} {pos : Nat} (h : IsNumeral text)
    (hx : Double.ofNumeral? text = some x) : LeafText (.number x pos) text
  | string {quote : Char} {value : String} {pos : Nat} (hq : IsQuote quote) :
    LeafText (.string value pos) (quote :: escape quote value.toList ++ [quote])
  | true {pos : Nat} : LeafText (.bool true pos) "true".toList
  | false {pos : Nat} : LeafText (.bool false pos) "false".toList
  | null {pos : Nat} : LeafText (.null pos) "null".toList
  | path {name : String} {pos : Nat} : LeafText (.path name pos) name.toList

/--
Words that print a tree where an operand of the nonterminal `n` may stand, with at most `limit` `!`
and parentheses open at once. A tree that binds looser than its place admits is in parentheses, and
any other may be.
-/
inductive Printed : Nat → Nonterminal → Expr → List (List Char) → Prop
  | leaf {limit : Nat} {n : Nonterminal} {e : Expr} {word : List Char} (h : LeafText e word) :
    Printed limit n e [word]
  | not {limit : Nat} {n : Nonterminal} {e : Expr} {pos : Nat} {words : List (List Char)}
    (hn : n.rank ≤ Nonterminal.unary.rank) (h : Printed limit .unary e words) :
    Printed (limit + 1) n (.not e pos) ("!".toList :: words)
  | binary {limit : Nat} {n : Nonterminal} {op : BinaryOp} {left right : Expr} {pos : Nat}
    {ls rs : List (List Char)} (hn : n.rank ≤ op.level.rank)
    (hl : Printed limit (.binary op.level) left ls) (hr : Printed limit op.level.operand right rs) :
    Printed limit n (.binary op left right pos) (ls ++ op.symbol.toList :: rs)
  | parens {limit : Nat} {n : Nonterminal} {e : Expr} {words : List (List Char)}
    (h : Printed limit (.binary .or) e words) :
    Printed (limit + 1) n e ("(".toList :: (words ++ [")".toList]))

theorem Printed.mono {limit limit' : Nat} {n : Nonterminal} {e : Expr} {words : List (List Char)}
    (h : Printed limit n e words) (hle : limit ≤ limit') : Printed limit' n e words := by
  induction h generalizing limit' with
  | leaf h => exact .leaf h
  | not hn h ih =>
    obtain ⟨inside, rfl⟩ := Nat.exists_eq_add_of_lt (Nat.lt_of_succ_le hle)
    exact .not hn (ih (by omega))
  | binary hn hl hr ihl ihr => exact .binary hn (ihl hle) (ihr hle)
  | parens h ih =>
    obtain ⟨inside, rfl⟩ := Nat.exists_eq_add_of_lt (Nat.lt_of_succ_le hle)
    exact .parens (ih (by omega))

namespace Expr

/--
The words of an operand that binds as tight as `rank`, in parentheses if its place asks for
more.
-/
def enclose (n : Nonterminal) (rank : Nat) (words : List (List Char)) : List (List Char) :=
  if n.rank ≤ rank then words else "(".toList :: (words ++ [")".toList])

def print (numeral : Double → List Char) : Nonterminal → Expr → List (List Char)
  | _, number x _ => [numeral x]
  | _, string s _ => ['"' :: escape '"' s.toList ++ ['"']]
  | _, bool b _ => [if b then "true".toList else "false".toList]
  | _, null _ => ["null".toList]
  | _, path name _ => [name.toList]
  | n, not e _ => enclose n Nonterminal.unary.rank ("!".toList :: e.print numeral .unary)
  | n, binary op l r _ => enclose n op.level.rank
    (l.print numeral (.binary op.level) ++ op.symbol.toList :: r.print numeral op.level.operand)

/-- How many `!` and parentheses are open at once in what is printed. -/
def opened : Nonterminal → Expr → Nat
  | n, not e _ => e.opened .unary + 1 + if n.rank ≤ Nonterminal.unary.rank then 0 else 1
  | n, binary op l r _ => max (l.opened (.binary op.level)) (r.opened op.level.operand) +
    if n.rank ≤ op.level.rank then 0 else 1
  | _, _ => 0

theorem printed_enclose {limit : Nat} {n m : Nonterminal} {e : Expr} {words : List (List Char)}
    (h : ∀ {n : Nonterminal}, n.rank ≤ m.rank → Printed limit n e words) :
    Printed (limit + if n.rank ≤ m.rank then 0 else 1) n e (enclose n m.rank words) := by
  unfold enclose
  split
  · next hle => exact h hle
  · exact .parens (h (Nat.zero_le _))

theorem printed_print (numeral : Double → List Char) {e : Expr}
    (h : ∀ x ∈ e.numbers, IsNumeral (numeral x) ∧ Double.ofNumeral? (numeral x) = some x)
    (n : Nonterminal) : Printed (e.opened n) n e (e.print numeral n) := by
  induction e generalizing n with
  | number x pos =>
    obtain ⟨hnumeral, hx⟩ := h x List.mem_cons_self
    exact .leaf (.number hnumeral hx)
  | string s pos => exact .leaf (.string (.inl rfl))
  | bool b pos =>
    cases b with
    | true => exact .leaf .true
    | false => exact .leaf .false
  | null pos => exact .leaf .null
  | path name pos => exact .leaf .path
  | not e pos ih =>
    exact printed_enclose (m := .unary) fun hle => .not hle (ih h .unary)
  | binary op l r pos ihl ihr =>
    obtain ⟨hnl, hnr⟩ := List.forall_mem_append.1 h
    have hl := (ihl hnl (.binary op.level)).mono (Nat.le_max_left _ (r.opened op.level.operand))
    have hr := (ihr hnr op.level.operand).mono (Nat.le_max_right (l.opened (.binary op.level)) _)
    exact printed_enclose (m := .binary op.level) fun hle => .binary hle hl hr

end Expr

theorem quoted_escape {quote : Char} (hq : IsQuote quote) (s : List Char) :
    Quoted quote (escape quote s) s := by
  induction s with
  | nil => exact .nil
  | cons c s ih =>
    rw [escape, List.flatMap_cons]
    split
    · next hc =>
      refine .escaped (.itself ?_ ?_ ?_) ih
      all_goals
        rintro rfl
        obtain rfl | rfl := hq <;> revert hc <;> decide
    · next hc =>
      obtain ⟨hquote, hslash⟩ := not_or.1 hc
      exact .plain hquote hslash ih

theorem IsName.spells {name : String} (h : IsName name) :
    Spells .identifier name.toList name.toList := by
  obtain ⟨hword, htrue, hfalse, hnull⟩ := h
  have hne {keyword : String} (hk : name ≠ keyword) : name.toList ≠ keyword.toList := by
    intro heq
    exact hk (String.toList_inj.1 heq)
  have hkind : Lexeme.wordKind name.toList = .identifier := by
    rw [Lexeme.wordKind, if_neg (hne htrue), if_neg (hne hfalse), if_neg (hne hnull)]
  rw [← hkind]
  exact hword.spells

theorem LeafText.spells {e : Expr} {word : List Char} (h : LeafText e word)
    (hn : ∀ name ∈ e.names, IsName name) :
    ∃ kind value, Spells kind word value ∧ kind.IsLeaf ∧
      ∀ t : Token, t.kind = kind → t.value.toList = value → t.tree.bare = e.bare := by
  cases h with
  | @number text x pos h hx =>
    refine ⟨_, _, .number h, .number, fun t hk hv => ?_⟩
    simp [Token.tree, Token.number, hk, hv, hx, Expr.bare]
  | @string quote value pos hq =>
    refine ⟨_, _, .string hq (quoted_escape hq _), .string, fun t hk hv => ?_⟩
    simp [Token.tree, hk, Expr.bare, String.toList_inj.1 hv]
  | true =>
    refine ⟨.true, _, .fixed rfl, .true, fun t hk hv => ?_⟩
    simp [Token.tree, hk, Expr.bare]
  | false =>
    refine ⟨.false, _, .fixed rfl, .false, fun t hk hv => ?_⟩
    simp [Token.tree, hk, Expr.bare]
  | null =>
    refine ⟨.null, _, .fixed rfl, .null, fun t hk hv => ?_⟩
    simp [Token.tree, hk, Expr.bare]
  | @path name pos =>
    refine ⟨_, _, (hn name List.mem_cons_self).spells, .identifier, fun t hk hv => ?_⟩
    simp [Token.tree, hk, Expr.bare, String.toList_inj.1 hv]

theorem Derivation.exists_snoc {l : Level} {op : BinaryOp} (t : Token) (h : l.Op t.kind op)
    (operand : Derivation (.one l.operand)) : (others : Derivation (.more l)) →
    ∃ d : Derivation (.more l), d.tokens = others.tokens ++ t :: operand.tokens ∧
      d.nesting = max others.nesting operand.nesting ∧
      ∀ left, d.tree left = Expr.binary op (others.tree left) operand.tree t.position
  | .stop => by
    refine ⟨.next t h operand .stop, ?_, ?_, fun left => rfl⟩
    · simp [tokens]
    · simp [nesting]
  | .next t' h' operand' others => by
    obtain ⟨d, htokens, hnesting, htree⟩ := exists_snoc t h operand others
    refine ⟨.next t' h' operand' d, ?_, ?_, fun left => htree _⟩
    · simp [tokens, htokens]
    · simp [nesting, hnesting, Nat.max_assoc]

/-- The tokens derive from the nonterminal, for this tree up to positions. -/
def Nonterminal.Derives (limit : Nat) (n : Nonterminal) (ts : List Token) (e : Expr) : Prop :=
  ∃ d : Derivation (.one n), d.tokens = ts ∧ d.nesting ≤ limit ∧ Expr.bare d.tree = e.bare

namespace Nonterminal

variable {limit : Nat} {n m : Nonterminal} {t : Token} {ts : List Token} {e : Expr}

theorem Derives.of_operand {l : Level} (h : l.operand.Derives limit ts e) :
    (binary l).Derives limit ts e := by
  obtain ⟨d, rfl, hn, he⟩ := h
  exact ⟨.chain d .stop, List.append_nil _, Nat.max_le.2 ⟨hn, Nat.zero_le _⟩, he⟩

theorem Derives.of_primary (h : primary.Derives limit ts e) : unary.Derives limit ts e := by
  obtain ⟨d, rfl, hn, he⟩ := h
  exact ⟨.primary d, rfl, hn, he⟩

theorem eq_of_rank_eq (h : n.rank = m.rank) : n = m := by
  rcases n with (_ | _ | _ | _) | _ | _ <;> rcases m with (_ | _ | _ | _) | _ | _ <;>
    first | rfl | exact absurd h (by decide)

theorem rank_lt_six (n : Nonterminal) : n.rank < 6 := by
  rcases n with l | _ | _
  · cases l <;> decide
  · decide
  · decide

/-- What derives from a nonterminal derives from every looser one. -/
theorem Derives.loosen (h : m.Derives limit ts e) (hle : n.rank ≤ m.rank) :
    n.Derives limit ts e := by
  -- one nonterminal at a time, from `m` down to `n`
  induction hgap : m.rank - n.rank generalizing n with
  | zero =>
    obtain rfl : n = m := eq_of_rank_eq (Nat.le_antisymm hle (Nat.le_of_sub_eq_zero hgap))
    exact h
  | succ gap ih =>
    cases n with
    | binary l =>
      have hrank : l.operand.rank = (binary l).rank + 1 := by cases l <;> rfl
      exact .of_operand (ih (by omega) (by omega))
    | unary =>
      have hrank : primary.rank = unary.rank + 1 := rfl
      exact .of_primary (ih (by omega) (by omega))
    | primary =>
      have := m.rank_lt_six
      have hrank : primary.rank = 5 := rfl
      omega

theorem Derives.leaf (hk : t.kind.IsLeaf) (he : t.tree.bare = e.bare) :
    primary.Derives limit [t] e :=
  ⟨.leaf t hk, rfl, Nat.zero_le _, he⟩

theorem Derives.not (ht : t.kind = .bang) (h : unary.Derives limit ts e) (pos : Nat) :
    unary.Derives (limit + 1) (t :: ts) (.not e pos) := by
  obtain ⟨d, rfl, hn, he⟩ := h
  exact ⟨.not t ht d, rfl, Nat.succ_le_succ hn, congrArg (Expr.not · 0) he⟩

theorem Derives.group {left right : Token} (hl : left.kind = .lparen) (hr : right.kind = .rparen)
    (h : (binary .or).Derives limit ts e) :
    primary.Derives (limit + 1) (left :: (ts ++ [right])) e := by
  obtain ⟨d, rfl, hn, he⟩ := h
  exact ⟨.group left hl d right hr, rfl, Nat.succ_le_succ hn, he⟩

theorem Derives.join {l : Level} {op : BinaryOp} {ls rs : List Token} {left right : Expr}
    (ht : l.Op t.kind op) (hl : (binary l).Derives limit ls left)
    (hr : l.operand.Derives limit rs right) (pos : Nat) :
    (binary l).Derives limit (ls ++ t :: rs) (.binary op left right pos) := by
  obtain ⟨d, rfl, hln, hle⟩ := hl
  obtain ⟨operand, rfl, hrn, hre⟩ := hr
  cases d with
  | chain first others =>
    obtain ⟨d, htokens, hnesting, htree⟩ := Derivation.exists_snoc t ht operand others
    obtain ⟨hfirst, hothers⟩ := Nat.max_le.1 hln
    refine ⟨.chain first d, ?_, ?_, ?_⟩
    · rw [Derivation.tokens, htokens, ← List.append_assoc]
      rfl
    · rw [Derivation.nesting, hnesting]
      exact Nat.max_le.2 ⟨hfirst, Nat.max_le.2 ⟨hothers, hrn⟩⟩
    · rw [Derivation.tree, htree, Expr.bare, Expr.bare, hre, ← hle]
      rfl

end Nonterminal

theorem exists_of_spelled_cons {ts : List Token} {word : List Char} {words : List (List Char)}
    (h : List.Forall₂ Token.SpelledBy ts (word :: words)) {kind : TokenKind} {value : List Char}
    (hs : Spells kind word value) :
    ∃ t others, ts = t :: others ∧ t.kind = kind ∧ t.value.toList = value ∧
      List.Forall₂ Token.SpelledBy others words := by
  obtain ⟨t, others, ht, hothers, rfl⟩ := List.forall₂_cons_right_iff.1 h
  obtain ⟨hkind, hvalue⟩ := Spells.unique ht hs
  exact ⟨t, others, rfl, hkind, hvalue, hothers⟩

theorem exists_of_spelled_append {ts : List Token} {words words' : List (List Char)}
    (h : List.Forall₂ Token.SpelledBy ts (words ++ words')) :
    ∃ us vs, ts = us ++ vs ∧ List.Forall₂ Token.SpelledBy us words ∧
      List.Forall₂ Token.SpelledBy vs words' :=
  ⟨_, _, (List.take_append_drop words.length ts).symm, List.forall₂_take_append _ _ _ h,
    List.forall₂_drop_append _ _ _ h⟩

/-- Whatever tokens the words of a printed tree spell, they derive for that tree. -/
theorem Printed.derives {limit : Nat} {n : Nonterminal} {e : Expr} {words : List (List Char)}
    (h : Printed limit n e words) (hn : ∀ name ∈ e.names, IsName name) {ts : List Token}
    (hts : List.Forall₂ Token.SpelledBy ts words) : n.Derives limit ts e := by
  have hprimary (n : Nonterminal) : n.rank ≤ Nonterminal.primary.rank :=
    Nat.le_of_lt_succ n.rank_lt_six
  -- each case derives what it prints in the tightest place, and loosens it to its own
  induction h generalizing ts with
  | @leaf limit n e word h =>
    obtain ⟨kind, value, hs, hleaf, htree⟩ := h.spells hn
    obtain ⟨t, others, rfl, rfl, hvalue, hnil⟩ := exists_of_spelled_cons hts hs
    obtain rfl := List.forall₂_nil_right_iff.1 hnil
    exact (Nonterminal.Derives.leaf hleaf (htree t rfl hvalue)).loosen (hprimary n)
  | not hle h ih =>
    have hbang : Spells .bang "!".toList "!".toList := .fixed rfl
    obtain ⟨t, others, rfl, hk, -, hothers⟩ := exists_of_spelled_cons hts hbang
    exact ((ih hn hothers).not hk _).loosen hle
  | @binary limit n op left right pos ls rs hle hl hr ihl ihr =>
    obtain ⟨hnl, hnr⟩ := List.forall_mem_append.1 hn
    obtain ⟨us, vs, rfl, hus, hvs⟩ := exists_of_spelled_append hts
    obtain ⟨t, vs, rfl, hk, -, hvs⟩ := exists_of_spelled_cons hvs op.spells_symbol
    have hop : op.level.Op t.kind op := hk ▸ op.level_op
    exact ((ihl hnl hus).join hop (ihr hnr hvs) pos).loosen hle
  | @parens limit n e words h ih =>
    have hopen : Spells .lparen "(".toList "(".toList := .fixed rfl
    have hclose : Spells .rparen ")".toList ")".toList := .fixed rfl
    obtain ⟨left, inner, rfl, hleft, -, hinner⟩ := exists_of_spelled_cons hts hopen
    obtain ⟨us, vs, rfl, hus, hvs⟩ := exists_of_spelled_append hinner
    obtain ⟨right, others, rfl, hright, -, hnil⟩ := exists_of_spelled_cons hvs hclose
    obtain rfl := List.forall₂_nil_right_iff.1 hnil
    exact ((ih hn hus).group hleft hright).loosen (hprimary n)

theorem Printed.spelled {limit : Nat} {n : Nonterminal} {e : Expr} {words : List (List Char)}
    (h : Printed limit n e words) (hn : ∀ name ∈ e.names, IsName name) :
    ∀ word ∈ words, IsSpelling word := by
  induction h with
  | leaf h =>
    obtain ⟨kind, value, hs, -⟩ := h.spells hn
    exact List.forall_mem_singleton.2 ⟨kind, value, hs⟩
  | not hle h ih =>
    have hbang : IsSpelling "!".toList := ⟨.bang, _, .fixed rfl⟩
    exact List.forall_mem_cons.2 ⟨hbang, ih hn⟩
  | @binary limit n op left right pos ls rs hle hl hr ihl ihr =>
    obtain ⟨hnl, hnr⟩ := List.forall_mem_append.1 hn
    have hop : IsSpelling op.symbol.toList := ⟨op.kind, _, op.spells_symbol⟩
    exact List.forall_mem_append.2 ⟨ihl hnl, List.forall_mem_cons.2 ⟨hop, ihr hnr⟩⟩
  | parens h ih =>
    have hleft : IsSpelling "(".toList := ⟨.lparen, _, .fixed rfl⟩
    have hright : IsSpelling ")".toList := ⟨.rparen, _, .fixed rfl⟩
    simp only [List.forall_mem_cons, List.forall_mem_append]
    exact ⟨hleft, ih hn, hright, by simp⟩

/--
A printed tree is read back, up to positions: with any blanks between the words, and with any
parentheses around it and its parts beyond those that it needs.
-/
theorem parse_printed {e : Expr} {words : List (List Char)} {source : String}
    (hn : ∀ name ∈ e.names, IsName name) (hp : Printed 256 (.binary .or) e words)
    (hs : Spaced words source.toList) : ∃ e', parse source = .ok e' ∧ e'.bare = e.bare := by
  obtain ⟨ts, last, htokens, hts⟩ := tokenize_of_spaced hs (hp.spelled hn)
  obtain ⟨d, rfl, hlimit, htree⟩ := hp.derives hn hts
  have hread : Parser.expression source.length d.tokens = .ok d.tree :=
    (Parser.expression_iff (readable_of_tokenize htokens)).2 ⟨d, rfl, hlimit, rfl⟩
  exact ⟨d.tree, (parse_eq_ok htokens).2 hread, htree⟩

theorem parse_printed_guard :
    ∃ e, parse " ! ( a.b > 1 ) && \"say \\\"hi\\\"\" == null" = .ok e ∧ e.bare = Expr.bare
      (.binary .and
        (.not (.binary .gt (.path "a.b" 0) (.number ((Double.ofNumeral? ['1']).getD .nan) 0) 0) 0)
        (.binary .eq (.string "say \"hi\"" 0) (.null 0) 0) 0) := by
  have hname : IsName "a.b" := ⟨by decide +kernel, by decide, by decide, by decide⟩
  have hone : IsNumeral ['1'] := .whole ⟨by decide, List.forall_mem_singleton.2 rfl⟩
  obtain ⟨x, hx⟩ := Option.isSome_iff_exists.1 hone.isSome_ofNumeral?
  have hprinted := Expr.printed_print (fun _ => ['1'])
    (e := .binary .and (.not (.binary .gt (.path "a.b" 0) (.number x 0) 0) 0)
      (.binary .eq (.string "say \"hi\"" 0) (.null 0) 0) 0)
    (List.forall_mem_singleton.2 ⟨hone, hx⟩) (.binary .or)
  rw [hx]
  exact parse_printed (List.forall_mem_singleton.2 hname)
    (hprinted.mono (Nat.le_of_ble_eq_true rfl)) (spaced_joinWords _)

end PageFlow
