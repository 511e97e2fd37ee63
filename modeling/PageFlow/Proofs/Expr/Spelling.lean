import PageFlow.Expr.Lexer

namespace PageFlow

def decimalDigits : List Char :=
  ['0', '1', '2', '3', '4', '5', '6', '7', '8', '9']

theorem isDigit_iff_mem {c : Char} : c.isDigit ↔ c ∈ decimalDigits := by
  constructor
  · intro h
    have hall : ∀ n ∈ List.range' 48 10, Char.ofNat n ∈ decimalDigits := by decide
    rw [Char.isDigit_iff_toNat] at h
    have hmem : c.toNat ∈ List.range' 48 10 := by
      rw [List.mem_range'_1]
      exact ⟨h.1, Nat.lt_succ_of_le h.2⟩
    rw [← Char.ofNat_toNat c]
    exact hall _ hmem
  · have hall : decimalDigits.all Char.isDigit := by decide
    exact List.all_eq_true.1 hall c

theorem all_digits {p : Char → Bool} (h : decimalDigits.all p) {c : Char} (hc : c.isDigit) : p c :=
  List.all_eq_true.1 h c (isDigit_iff_mem.1 hc)

def IsDigits (text : List Char) : Prop :=
  text ≠ [] ∧ ∀ c ∈ text, c.isDigit

inductive IsNumeral : List Char → Prop
  | whole {text : List Char} (h : IsDigits text) : IsNumeral text
  | point {whole fraction : List Char} (hw : IsDigits whole) (hf : IsDigits fraction) :
    IsNumeral (whole ++ '.' :: fraction)

def IsWord : List Char → Prop
  | [] => False
  | c :: rest => Lexeme.startsWord c ∧ ∀ d ∈ rest, Lexeme.continuesWord d

def IsQuote (c : Char) : Prop :=
  c = '"' ∨ c = '\''

instance : DecidablePred IsQuote := fun c => inferInstanceAs (Decidable (c = '"' ∨ c = '\''))

instance : DecidablePred IsWord
  | [] => inferInstanceAs (Decidable False)
  | c :: rest =>
    have : Decidable (∀ d ∈ rest, Lexeme.continuesWord d) := List.decidableBAll _ rest
    inferInstanceAs (Decidable (Lexeme.startsWord c ∧ ∀ d ∈ rest, Lexeme.continuesWord d))

/-- What an escaped character stands for. -/
inductive Escapes : Char → Char → Prop
  | newline : Escapes 'n' '\n'
  | tab : Escapes 't' '\t'
  | carriageReturn : Escapes 'r' '\r'
  | itself {c : Char} (hn : c ≠ 'n') (ht : c ≠ 't') (hr : c ≠ 'r') : Escapes c c

/-- A text between two quotes, in which the quote occurs only escaped, and what it means. -/
inductive Quoted (quote : Char) : List Char → List Char → Prop
  | nil : Quoted quote [] []
  | plain {c : Char} {inner value : List Char} (hq : c ≠ quote) (he : c ≠ '\\')
    (h : Quoted quote inner value) : Quoted quote (c :: inner) (c :: value)
  | escaped {c d : Char} {inner value : List Char} (hd : Escapes c d)
    (h : Quoted quote inner value) : Quoted quote ('\\' :: c :: inner) (d :: value)

/-- The spelling of a kind of token that has only one. -/
def TokenKind.fixed? : TokenKind → Option (List Char)
  | true => some ['t', 'r', 'u', 'e']
  | false => some ['f', 'a', 'l', 's', 'e']
  | null => some ['n', 'u', 'l', 'l']
  | eqEq => some ['=', '=']
  | notEq => some ['!', '=']
  | gtEq => some ['>', '=']
  | ltEq => some ['<', '=']
  | andAnd => some ['&', '&']
  | orOr => some ['|', '|']
  | gt => some ['>']
  | lt => some ['<']
  | bang => some ['!']
  | lparen => some ['(']
  | rparen => some [')']
  | number | string | identifier | eof => none

inductive Spells : TokenKind → List Char → List Char → Prop
  | number {text : List Char} (h : IsNumeral text) : Spells .number text text
  | string {quote : Char} {inner value : List Char} (hq : IsQuote quote)
    (h : Quoted quote inner value) : Spells .string (quote :: inner ++ [quote]) value
  | identifier {text : List Char} (h : IsWord text)
    (hk : ∀ kind, TokenKind.fixed? kind ≠ some text) : Spells .identifier text text
  | fixed {kind : TokenKind} {text : List Char} (h : kind.fixed? = some text) :
    Spells kind text text

theorem IsDigits.isDigit_head {c : Char} {s : List Char} (h : IsDigits (c :: s)) : c.isDigit :=
  h.2 c List.mem_cons_self

theorem IsNumeral.isDigit_head {c : Char} {s : List Char} (h : IsNumeral (c :: s)) : c.isDigit := by
  generalize htext : c :: s = text at h
  cases h with
  | whole h =>
    subst htext
    exact h.isDigit_head
  | @point whole fraction hw hf =>
    cases whole with
    | nil => exact absurd rfl hw.1
    | cons d whole =>
      cases htext
      exact hw.isDigit_head

theorem IsNumeral.ne_nil {text : List Char} (h : IsNumeral text) : text ≠ [] := by
  cases h with
  | whole h => exact h.1
  | point hw hf => simp

theorem IsWord.ne_nil {word : List Char} (h : IsWord word) : word ≠ [] := by
  rintro rfl
  exact h

theorem Escapes.iff {c d : Char} : Escapes c d ↔ Lexeme.unescape c = d := by
  constructor
  · intro h
    cases h with
    | newline | tab | carriageReturn => rfl
    | itself hn ht hr =>
      unfold Lexeme.unescape
      split <;> simp_all
  · intro h
    unfold Lexeme.unescape at h
    split at h
    · exact h ▸ .newline
    · exact h ▸ .tab
    · exact h ▸ .carriageReturn
    · next hn ht hr => exact h ▸ .itself hn ht hr

theorem Spells.ne_nil {kind : TokenKind} {text value : List Char} (h : Spells kind text value) :
    text ≠ [] := by
  cases h with
  | number h => exact h.ne_nil
  | string hq h => simp
  | identifier h hk => exact h.ne_nil
  | fixed h =>
    rintro rfl
    cases kind <;> cases h

theorem Spells.kind_ne_eof {kind : TokenKind} {text value : List Char}
    (h : Spells kind text value) : kind ≠ .eof := by
  rintro rfl
  cases h with
  | fixed h => cases h

namespace Lexeme

theorem not_startsWord_digit {c : Char} (h : c.isDigit) : ¬ startsWord c := by
  have hall : decimalDigits.all (!startsWord ·) := by decide
  simpa using all_digits hall h

theorem not_isQuote_digit {c : Char} (h : c.isDigit) : ¬ IsQuote c := by
  rintro (rfl | rfl)
  · cases h
  · cases h

theorem not_startsWord_quote {c : Char} (h : IsQuote c) : ¬ startsWord c := by
  obtain rfl | rfl := h
  · decide
  · decide

theorem quoted_complete {quote : Char} (hq : IsQuote quote) {inner value : List Char}
    (h : Quoted quote inner value) (more : List Char) :
    quoted quote (inner ++ quote :: more) = .ok (value, inner.length + 1) := by
  have hescape : '\\' ≠ quote := by
    obtain rfl | rfl := hq
    · decide
    · decide
  induction h with
  | nil =>
    rw [List.nil_append, quoted.eq_def]
    simp
  | plain hc he h ih =>
    rw [List.cons_append, quoted.eq_def]
    simp [hc, he, ih, Except.map]
  | escaped hd h ih =>
    rw [List.cons_append, List.cons_append, quoted.eq_def]
    simp [hescape, ih, Except.map, Escapes.iff.1 hd]

theorem pairKind?_iff {c d : Char} {kind : TokenKind} :
    pairKind? c d = some kind ↔ kind.fixed? = some [c, d] := by
  constructor
  · intro h
    unfold pairKind? at h
    split at h
    · cases h; rfl
    · cases h; rfl
    · cases h; rfl
    · cases h; rfl
    · cases h; rfl
    · cases h; rfl
    · cases h
  · intro h
    cases kind <;> cases h <;> rfl

theorem singleKind?_iff {c : Char} {kind : TokenKind} :
    singleKind? c = some kind ↔ kind.fixed? = some [c] := by
  constructor
  · intro h
    unfold singleKind? at h
    split at h
    · cases h; rfl
    · cases h; rfl
    · cases h; rfl
    · cases h; rfl
    · cases h; rfl
    · cases h
  · intro h
    cases kind <;> cases h <;> rfl

end Lexeme

/-- A spelling that is fixed is a word, or an operator of one or two characters. -/
theorem TokenKind.fixed?_cases {kind : TokenKind} {c : Char} {rest : List Char}
    (h : kind.fixed? = some (c :: rest)) :
    IsWord (c :: rest) ∧ Lexeme.wordKind (c :: rest) = kind ∨
      ¬ c.isDigit ∧ ¬ IsQuote c ∧ ¬ Lexeme.startsWord c ∧ rest.length ≤ 1 := by
  cases kind <;> cases h <;> decide

theorem TokenKind.fixed?_injective {kind kind' : TokenKind} {c : Char} {rest : List Char}
    (h : kind.fixed? = some (c :: rest)) (h' : kind'.fixed? = some (c :: rest)) : kind = kind' := by
  obtain ⟨hw, hkind⟩ | ⟨-, -, hn, hlength⟩ := fixed?_cases h
  · obtain ⟨-, hkind'⟩ | ⟨-, -, hn, -⟩ := fixed?_cases h'
    · exact hkind.symm.trans hkind'
    · exact absurd hw.1 hn
  · cases rest with
    | nil =>
      have hsingle := Lexeme.singleKind?_iff.2 h
      rw [Lexeme.singleKind?_iff.2 h'] at hsingle
      exact (Option.some.inj hsingle).symm
    | cons d rest =>
      obtain rfl : rest = [] := List.eq_nil_of_length_eq_zero
        (Nat.le_zero.1 (Nat.le_of_succ_le_succ hlength))
      have hpair := Lexeme.pairKind?_iff.2 h
      rw [Lexeme.pairKind?_iff.2 h'] at hpair
      exact (Option.some.inj hpair).symm

theorem Lexeme.wordKind_identifier {word : List Char}
    (h : ∀ kind, TokenKind.fixed? kind ≠ some word) : wordKind word = .identifier := by
  have hword (kind : TokenKind) (keyword : List Char) (hk : kind.fixed? = some keyword) :
      word ≠ keyword := by
    rintro rfl
    exact h kind hk
  have htrue : word ≠ "true".toList := hword .true _ rfl
  have hfalse : word ≠ "false".toList := hword .false _ rfl
  have hnull : word ≠ "null".toList := hword .null _ rfl
  rw [wordKind, if_neg htrue, if_neg hfalse, if_neg hnull]

theorem IsWord.spells {word : List Char} (h : IsWord word) :
    Spells (Lexeme.wordKind word) word word := by
  by_cases hk : ∃ kind, TokenKind.fixed? kind = some word
  · obtain ⟨kind, hk⟩ := hk
    obtain ⟨c, rest, rfl⟩ := List.exists_cons_of_ne_nil h.ne_nil
    obtain ⟨-, rfl⟩ | ⟨-, -, hn, -⟩ := TokenKind.fixed?_cases hk
    · exact .fixed hk
    · exact absurd h.1 hn
  · have hk := not_exists.1 hk
    rw [Lexeme.wordKind_identifier hk]
    exact .identifier h hk

namespace Spells

variable {kind : TokenKind} {c : Char} {rest value : List Char}

theorem head_cases (h : Spells kind (c :: rest) value) :
    (c.isDigit ∧ IsNumeral (c :: rest) ∧ kind = .number ∧ value = c :: rest) ∨
      (IsQuote c ∧ kind = .string ∧ ∃ inner, rest = inner ++ [c] ∧ Quoted c inner value) ∨
      (Lexeme.startsWord c ∧ IsWord (c :: rest) ∧ kind = Lexeme.wordKind (c :: rest) ∧
        value = c :: rest) ∨
      ((¬ c.isDigit ∧ ¬ IsQuote c ∧ ¬ Lexeme.startsWord c) ∧ kind.fixed? = some (c :: rest) ∧
        value = c :: rest ∧ rest.length ≤ 1) := by
  generalize htext : c :: rest = text at h
  cases h with
  | number h =>
    cases htext
    exact .inl ⟨h.isDigit_head, h, rfl, rfl⟩
  | string hq h =>
    cases htext
    exact .inr (.inl ⟨hq, rfl, _, rfl, h⟩)
  | identifier h hk =>
    cases htext
    exact .inr (.inr (.inl ⟨h.1, h, (Lexeme.wordKind_identifier hk).symm, rfl⟩))
  | fixed h =>
    cases htext
    obtain ⟨hw, hkind⟩ | ⟨hd, hq, hn, hlength⟩ := TokenKind.fixed?_cases h
    · exact .inr (.inr (.inl ⟨hw.1, hw, hkind.symm, rfl⟩))
    · exact .inr (.inr (.inr ⟨⟨hd, hq, hn⟩, h, rfl, hlength⟩))

theorem of_digit (h : Spells kind (c :: rest) value) (hc : c.isDigit) :
    IsNumeral (c :: rest) ∧ kind = .number ∧ value = c :: rest := by
  obtain ⟨-, h⟩ | ⟨hq, -⟩ | ⟨hw, -⟩ | ⟨⟨hd, -, -⟩, -⟩ := h.head_cases
  · exact h
  · exact absurd hq (Lexeme.not_isQuote_digit hc)
  · exact absurd hw (Lexeme.not_startsWord_digit hc)
  · exact absurd hc hd

theorem of_quote (h : Spells kind (c :: rest) value) (hc : IsQuote c) :
    kind = .string ∧ ∃ inner, rest = inner ++ [c] ∧ Quoted c inner value := by
  obtain ⟨hd, -⟩ | ⟨-, h⟩ | ⟨hw, -⟩ | ⟨⟨-, hq, -⟩, -⟩ := h.head_cases
  · exact absurd hc (Lexeme.not_isQuote_digit hd)
  · exact h
  · exact absurd hw (Lexeme.not_startsWord_quote hc)
  · exact absurd hc hq

theorem of_startsWord (h : Spells kind (c :: rest) value) (hc : Lexeme.startsWord c) :
    IsWord (c :: rest) ∧ kind = Lexeme.wordKind (c :: rest) ∧ value = c :: rest := by
  obtain ⟨hd, -⟩ | ⟨hq, -⟩ | ⟨-, h⟩ | ⟨⟨-, -, hw⟩, -⟩ := h.head_cases
  · exact absurd hc (Lexeme.not_startsWord_digit hd)
  · exact absurd hc (Lexeme.not_startsWord_quote hq)
  · exact h
  · exact absurd hc hw

theorem of_other (h : Spells kind (c :: rest) value) (hd : ¬ c.isDigit) (hq : ¬ IsQuote c)
    (hw : ¬ Lexeme.startsWord c) :
    kind.fixed? = some (c :: rest) ∧ value = c :: rest ∧ rest.length ≤ 1 := by
  obtain ⟨hd', -⟩ | ⟨hq', -⟩ | ⟨hw', -⟩ | ⟨-, h⟩ := h.head_cases
  · exact absurd hd' hd
  · exact absurd hq' hq
  · exact absurd hw' hw
  · exact h

theorem unique {kind' : TokenKind} {text value' : List Char} (h : Spells kind text value)
    (h' : Spells kind' text value') : kind = kind' ∧ value = value' := by
  obtain ⟨c, rest, rfl⟩ := List.exists_cons_of_ne_nil h.ne_nil
  by_cases hd : c.isDigit
  · obtain ⟨-, rfl, rfl⟩ := h.of_digit hd
    obtain ⟨-, rfl, rfl⟩ := h'.of_digit hd
    exact ⟨rfl, rfl⟩
  by_cases hq : IsQuote c
  · obtain ⟨rfl, inner, rfl, hinner⟩ := h.of_quote hq
    obtain ⟨rfl, inner', heq, hinner'⟩ := h'.of_quote hq
    obtain rfl := List.append_cancel_right heq
    have hread := Lexeme.quoted_complete hq hinner []
    rw [Lexeme.quoted_complete hq hinner' []] at hread
    cases hread
    exact ⟨rfl, rfl⟩
  by_cases hw : Lexeme.startsWord c
  · obtain ⟨-, rfl, rfl⟩ := h.of_startsWord hw
    obtain ⟨-, rfl, rfl⟩ := h'.of_startsWord hw
    exact ⟨rfl, rfl⟩
  obtain ⟨hk, rfl, -⟩ := h.of_other hd hq hw
  obtain ⟨hk', rfl, -⟩ := h'.of_other hd hq hw
  exact ⟨TokenKind.fixed?_injective hk hk', rfl⟩

end Spells

end PageFlow
