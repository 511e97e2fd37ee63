import PageFlow.Proofs.Expr.Tokens
import Mathlib.Data.List.Forall2

namespace PageFlow

/-- The words in order, each with a blank or the end behind it. -/
inductive Spaced : List (List Char) → List Char → Prop
  | nil {blanks : List Char} (hb : ∀ c ∈ blanks, Text.isBlank c) : Spaced [] blanks
  | cons {blanks word rest : List Char} {words : List (List Char)}
    (hb : ∀ c ∈ blanks, Text.isBlank c) (hr : ∀ c ∈ rest.head?, Text.isBlank c)
    (h : Spaced words rest) : Spaced (word :: words) (blanks ++ (word ++ rest))

def joinWords (words : List (List Char)) : List Char :=
  words.flatMap (' ' :: ·)

theorem spaced_joinWords (words : List (List Char)) : Spaced words (joinWords words) := by
  induction words with
  | nil => exact .nil (List.forall_mem_nil _)
  | cons word words ih =>
    have hr : ∀ c ∈ (joinWords words).head?, Text.isBlank c := by
      cases words with
      | nil => simp [joinWords]
      | cons word words => simp [joinWords, Text.isBlank]
    have hb : ∀ c ∈ [' '], Text.isBlank c := List.forall_mem_singleton.2 rfl
    exact .cons hb hr ih

def blankCodes : List Nat :=
  List.range' 0x09 5 ++ [0x20, 0x85, 0xA0, 0x1680] ++ List.range' 0x2000 11 ++
    [0x2028, 0x2029, 0x202F, 0x205F, 0x3000]

theorem toNat_mem_blankCodes {c : Char} (h : Text.isBlank c) : c.toNat ∈ blankCodes := by
  simp only [Text.isBlank, Bool.or_eq_true, Bool.and_eq_true, decide_eq_true_eq, beq_iff_eq] at h
  simp only [blankCodes, List.mem_append, List.mem_cons, List.mem_range'_1, List.not_mem_nil,
    or_false]
  omega

theorem not_in_word_of_isBlank {c : Char} (h : Text.isBlank c) :
    ¬ Lexeme.startsWord c ∧ ¬ Lexeme.continuesWord c ∧ ¬ c.isDigit ∧ ¬ IsQuote c ∧ c ≠ '.' := by
  have hall : ∀ n ∈ blankCodes, ¬ Lexeme.startsWord (Char.ofNat n) ∧
      ¬ Lexeme.continuesWord (Char.ofNat n) ∧ ¬ (Char.ofNat n).isDigit ∧
      ¬ IsQuote (Char.ofNat n) ∧ Char.ofNat n ≠ '.' := by
    decide +kernel
  rw [← Char.ofNat_toNat c]
  exact hall _ (toNat_mem_blankCodes h)

theorem IsNumeral.not_isBlank {text : List Char} (h : IsNumeral text) :
    ∀ c ∈ text, ¬ Text.isBlank c := by
  intro c hc hblank
  obtain ⟨-, -, hdigit, -, hpoint⟩ := not_in_word_of_isBlank hblank
  cases h with
  | whole h => exact hdigit (h.2 c hc)
  | point hw hf =>
    obtain hc | hc | hc : c ∈ _ ∨ c = '.' ∨ c ∈ _ := by simpa using hc
    · exact hdigit (hw.2 c hc)
    · exact hpoint hc
    · exact hdigit (hf.2 c hc)

theorem IsWord.not_isBlank {text : List Char} (h : IsWord text) : ∀ c ∈ text, ¬ Text.isBlank c := by
  intro c hc hblank
  obtain ⟨hstart, hcontinue, -⟩ := not_in_word_of_isBlank hblank
  obtain ⟨first, rest, rfl⟩ := List.exists_cons_of_ne_nil h.ne_nil
  obtain rfl | hc := List.mem_cons.1 hc
  · exact hstart h.1
  · exact hcontinue (h.2 c hc)

theorem TokenKind.fixed?_not_isBlank {kind : TokenKind} {text : List Char}
    (h : kind.fixed? = some text) : ∀ c ∈ text, ¬ Text.isBlank c := by
  cases kind <;> cases h <;> simp [Text.isBlank]

/-- Only strings have blanks inside. -/
theorem Spells.not_isBlank {kind : TokenKind} {text value : List Char} (h : Spells kind text value)
    (hk : kind ≠ .string) : ∀ c ∈ text, ¬ Text.isBlank c := by
  cases h with
  | number h => exact h.not_isBlank
  | string => exact absurd rfl hk
  | identifier h => exact h.not_isBlank
  | fixed h => exact TokenKind.fixed?_not_isBlank h

theorem Spells.isQuote_head {c : Char} {rest value : List Char}
    (h : Spells .string (c :: rest) value) : IsQuote c := by
  generalize htext : c :: rest = text at h
  cases h with
  | string hq h =>
    cases htext
    exact hq
  | fixed h => cases h

theorem Spells.head_not_isBlank {kind : TokenKind} {c : Char} {rest value : List Char}
    (h : Spells kind (c :: rest) value) : ¬ Text.isBlank c := by
  by_cases hk : kind = .string
  · subst hk
    exact fun hblank => (not_in_word_of_isBlank hblank).2.2.2.1 h.isQuote_head
  · exact h.not_isBlank hk c List.mem_cons_self

/-- With a blank or the end behind it, a spelling is the longest. -/
theorem Spells.longest {kind : TokenKind} {text value rest : List Char} (h : Spells kind text value)
    (hr : ∀ c ∈ rest.head?, Text.isBlank c) : Longest text (text ++ rest) := by
  obtain ⟨c, tail, rfl⟩ := List.exists_cons_of_ne_nil h.ne_nil
  by_cases hq : IsQuote c
  · obtain ⟨-, inner, rfl, hinner⟩ := h.of_quote hq
    rw [List.cons_append, List.append_assoc]
    exact Lexeme.quoted_longest hq hinner
  apply Longest.of_cons (List.prefix_append tail rest)
  intro kind' other value' hother hs
  have hk : kind' ≠ .string := by
    rintro rfl
    exact hq hother.isQuote_head
  -- a longer spelling would have the blank inside
  by_contra hlt
  obtain ⟨more, rfl⟩ := List.prefix_of_prefix_length_le (List.prefix_append tail rest) hs
    (Nat.le_of_not_le hlt)
  rw [List.prefix_append_right_inj] at hs
  cases more with
  | nil => simp at hlt
  | cons b more =>
    obtain ⟨rest, rfl⟩ := hs
    exact hother.not_isBlank hk b (by simp) (hr b rfl)

def IsSpelling (word : List Char) : Prop :=
  ∃ kind value, Spells kind word value

def Token.SpelledBy (t : Token) (word : List Char) : Prop :=
  Spells t.kind word t.value.toList

theorem dropWhile_isBlank {blanks word rest : List Char} {kind : TokenKind} {value : List Char}
    (hb : ∀ c ∈ blanks, Text.isBlank c) (h : Spells kind word value) :
    (blanks ++ (word ++ rest)).dropWhile Text.isBlank = word ++ rest := by
  obtain ⟨c, tail, rfl⟩ := List.exists_cons_of_ne_nil h.ne_nil
  rw [List.dropWhile_append_of_pos hb, List.cons_append, List.dropWhile_cons_of_neg]
  exact h.head_not_isBlank

namespace Cursor

variable {c after : Cursor}

theorem next_of_nil (h : c.skipBlank.rest = []) :
    c.next = (.ok ⟨.eof, "", c.skipBlank.position, 0⟩, c.skipBlank) := by
  unfold next
  simp only [h]

theorem next_of_read {first : Char} {rest : List Char} {l : Lexeme}
    (h : c.skipBlank.rest = first :: rest) (hl : Lexeme.read first rest = .ok l) :
    c.next = (.ok ⟨l.kind, String.ofList l.value, c.skipBlank.position, l.length⟩,
      c.skipBlank.advance l.length) := by
  unfold next
  simp only [h, hl]

theorem tokens_of_eof {t : Token} (h : c.next = (.ok t, after)) (ht : t.kind = .eof) :
    c.tokens = .ok [t] := by
  rw [tokens]
  split
  · next h' =>
    rw [h] at h'
    cases h'
  · next h' =>
    rw [h] at h'
    cases h'
    rw [dif_pos ht]

theorem tokens_of_next {t : Token} (h : c.next = (.ok t, after)) (ht : t.kind ≠ .eof) :
    c.tokens = after.tokens.map (t :: ·) := by
  rw [tokens]
  split
  · next h' =>
    rw [h] at h'
    cases h'
  · next h' =>
    rw [h] at h'
    cases h'
    rw [dif_neg ht]

theorem tokens_of_spaced {words : List (List Char)} {text : List Char} (h : Spaced words text)
    (hw : ∀ word ∈ words, IsSpelling word) (hc : c.rest = text) :
    ∃ ts last, c.tokens = .ok (ts ++ [last]) ∧ List.Forall₂ Token.SpelledBy ts words := by
  induction h generalizing c with
  | nil hb =>
    have hrest : c.skipBlank.rest = [] := by
      rw [skipBlank_rest, hc]
      exact List.dropWhile_eq_nil_iff.2 hb
    exact ⟨[], _, tokens_of_eof (next_of_nil hrest) rfl, .nil⟩
  | @cons blanks word rest words hb hr h ih =>
    obtain ⟨⟨kind, value, hword⟩, hwords⟩ := List.forall_mem_cons.1 hw
    have hrest : c.skipBlank.rest = word ++ rest := by
      rw [skipBlank_rest, hc, dropWhile_isBlank hb hword]
    obtain ⟨first, tail, rfl⟩ := List.exists_cons_of_ne_nil hword.ne_nil
    obtain ⟨l, hread, rfl, rfl, hlength⟩ := Lexeme.read_longest hword (hword.longest hr)
    have hafter : (c.skipBlank.advance l.length).rest = rest := by
      rw [Cursor.advance, hrest, hlength, List.drop_left]
    obtain ⟨ts, last, hts, hspelled⟩ := ih hwords hafter
    have htokens := tokens_of_next (next_of_read hrest hread) hword.kind_ne_eof
    rw [hts] at htokens
    refine ⟨⟨l.kind, String.ofList l.value, c.skipBlank.position, l.length⟩ :: ts, last, htokens,
      .cons ?_ hspelled⟩
    rwa [Token.SpelledBy, String.toList_ofList]

end Cursor

theorem tokenize_of_spaced {words : List (List Char)} {source : String}
    (h : Spaced words source.toList) (hw : ∀ word ∈ words, IsSpelling word) :
    ∃ ts last, tokenize source = .ok (ts ++ [last]) ∧ List.Forall₂ Token.SpelledBy ts words := by
  obtain ⟨ts, last, hts, hspelled⟩ := Cursor.tokens_of_spaced h hw (c := Cursor.start source) rfl
  exact ⟨ts, last, by rw [tokenize, hts]; rfl, hspelled⟩

end PageFlow
