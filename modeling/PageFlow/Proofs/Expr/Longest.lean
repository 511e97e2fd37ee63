import PageFlow.Proofs.Expr.Spelling
import Mathlib.Data.List.TakeWhile

namespace PageFlow

/-- No spelling at the front of `s` is longer than `text`. -/
structure Longest (text s : List Char) : Prop where
  isPrefix : text <+: s
  length_le {kind : TokenKind} {other value : List Char} (h : Spells kind other value)
    (hs : other <+: s) : other.length ≤ text.length

theorem Longest.of_cons {c : Char} {rest text : List Char} (hs : text <+: rest)
    (h : ∀ {kind other value}, Spells kind (c :: other) value → other <+: rest →
      other.length ≤ text.length) : Longest (c :: text) (c :: rest) := by
  refine ⟨List.cons_prefix_cons.2 ⟨rfl, hs⟩, fun {kind other value} hother ht => ?_⟩
  obtain ⟨d, other, rfl⟩ := List.exists_cons_of_ne_nil hother.ne_nil
  obtain ⟨rfl, htail⟩ := List.cons_prefix_cons.1 ht
  exact Nat.succ_le_succ (h hother htail)

theorem Longest.unique {text text' s : List Char} (h : Longest text s) (h' : Longest text' s)
    {kind kind' : TokenKind} {value value' : List Char} (hs : Spells kind text value)
    (hs' : Spells kind' text' value') : text = text' := by
  have hle : text.length ≤ text'.length := h'.length_le hs h.isPrefix
  have hge : text'.length ≤ text.length := h.length_le hs' h'.isPrefix
  exact (List.prefix_of_prefix_length_le h.isPrefix h'.isPrefix hle).eq_of_length
    (Nat.le_antisymm hle hge)

/-- No token starts at the front of `s`. -/
def Unspelled (s : List Char) : Prop :=
  ∀ {kind : TokenKind} {text value : List Char}, Spells kind text value → ¬ text <+: s

theorem Unspelled.of_cons {c : Char} {rest : List Char}
    (h : ∀ {kind text value}, Spells kind (c :: text) value → ¬ text <+: rest) :
    Unspelled (c :: rest) := by
  intro kind text value htext hs
  obtain ⟨d, text, rfl⟩ := List.exists_cons_of_ne_nil htext.ne_nil
  obtain ⟨rfl, htail⟩ := List.cons_prefix_cons.1 hs
  exact h htext htail

def Lexeme.Fits (l : Lexeme) (s : List Char) : Prop :=
  ∃ text, text.length = l.length ∧ Spells l.kind text l.value ∧ Longest text s

theorem length_le_takeWhile {α : Type} {p : α → Bool} {l s : List α} (h : l <+: s)
    (hp : ∀ a ∈ l, p a) : l.length ≤ (s.takeWhile p).length := by
  obtain ⟨more, rfl⟩ := h
  rw [List.takeWhile_append_of_pos hp]
  simp

namespace Lexeme

theorem numberSpan_whole (s : List Char) :
    (s.takeWhile Char.isDigit).length ≤ (numberSpan s).length := by
  unfold numberSpan
  split
  · split
    · exact Nat.le_refl _
    · simp
  · exact Nat.le_refl _

theorem numberSpan_point {whole fraction more : List Char} (hw : IsDigits whole)
    (hf : IsDigits fraction) : numberSpan (whole ++ '.' :: (fraction ++ more)) =
      whole ++ '.' :: (fraction ++ more.takeWhile Char.isDigit) := by
  have hpoint : ('.').isDigit = false := rfl
  simp only [numberSpan, List.takeWhile_append_of_pos hw.2, List.dropWhile_append_of_pos hw.2,
    List.takeWhile_append_of_pos hf.2, List.takeWhile_cons, List.dropWhile_cons, hpoint,
    Bool.false_eq_true, ↓reduceIte, List.append_nil]
  split
  · next hnil => exact absurd (List.append_eq_nil_iff.1 hnil).1 hf.1
  · rfl

theorem length_numeral_le {text s : List Char} (h : IsNumeral text) (hs : text <+: s) :
    text.length ≤ (numberSpan s).length := by
  cases h with
  | whole h => exact Nat.le_trans (length_le_takeWhile hs h.2) (numberSpan_whole s)
  | @point whole fraction hw hf =>
    obtain ⟨more, rfl⟩ := hs
    rw [List.append_assoc, List.cons_append, numberSpan_point hw hf]
    simp

theorem isDigits_takeWhile {s : List Char} (h : s.takeWhile Char.isDigit ≠ []) :
    IsDigits (s.takeWhile Char.isDigit) :=
  ⟨h, List.all_eq_true.1 List.all_takeWhile⟩

theorem isNumeral_numberSpan {c : Char} (hc : c.isDigit) (rest : List Char) :
    IsNumeral (numberSpan (c :: rest)) := by
  have hwhole : IsDigits ((c :: rest).takeWhile Char.isDigit) := isDigits_takeWhile (by simp [hc])
  unfold numberSpan
  split
  · split
    · exact .whole hwhole
    · next hne => exact .point hwhole (isDigits_takeWhile hne)
  · exact .whole hwhole

theorem numberSpan_isPrefix (s : List Char) : numberSpan s <+: s := by
  have hwhole := List.takeWhile_prefix (l := s) Char.isDigit
  unfold numberSpan
  split
  · next more hmore =>
    split
    · exact hwhole
    · have hs : s.takeWhile Char.isDigit ++ '.' :: more = s := by
        rw [← hmore]
        exact List.takeWhile_append_dropWhile
      obtain ⟨tail, htail⟩ := List.takeWhile_prefix (l := more) Char.isDigit
      refine ⟨tail, ?_⟩
      rw [List.append_assoc, List.cons_append, htail]
      exact hs
  · exact hwhole

theorem quoted_sound {quote : Char} {rest value : List Char} {length : Nat}
    (h : quoted quote rest = .ok (value, length)) :
    ∃ inner more, rest = inner ++ quote :: more ∧ length = inner.length + 1 ∧
      Quoted quote inner value := by
  fun_induction quoted quote rest generalizing value length with
  | case1 => cases h
  | case2 more =>
    cases h
    exact ⟨[], more, rfl, rfl, .nil⟩
  | case3 => cases h
  | case4 c rest hq ih =>
    cases hrest : quoted quote rest with
    | error => rw [hrest] at h; cases h
    | ok r =>
      rw [hrest] at h
      cases h
      obtain ⟨inner, more, rfl, hlength, hinner⟩ := ih hrest
      have hescapes : Escapes c (unescape c) := Escapes.iff.2 rfl
      exact ⟨'\\' :: c :: inner, more, rfl, by rw [hlength]; rfl, .escaped hescapes hinner⟩
  | case5 c rest hc he ih =>
    cases hrest : quoted quote rest with
    | error => rw [hrest] at h; cases h
    | ok r =>
      rw [hrest] at h
      cases h
      obtain ⟨inner, more, rfl, hlength, hinner⟩ := ih hrest
      exact ⟨c :: inner, more, rfl, by rw [hlength]; rfl, .plain hc he hinner⟩

theorem quoted_fault {quote : Char} {rest : List Char} {fault : ExprFault}
    (h : quoted quote rest = .error fault) :
    fault = .unterminatedString ∨ fault = .unterminatedEscape := by
  fun_induction quoted quote rest with
  | case1 => cases h; exact .inl rfl
  | case2 => cases h
  | case3 => cases h; exact .inr rfl
  | case4 c rest hq ih | case5 c rest hc he ih =>
    cases hrest : quoted quote rest with
    | error => rw [hrest] at h ih; cases h; exact ih rfl
    | ok => rw [hrest] at h; cases h

variable {c : Char} {rest : List Char}

theorem numberSpan_longest (hc : c.isDigit) : Longest (numberSpan (c :: rest)) (c :: rest) := by
  refine ⟨numberSpan_isPrefix _, fun {kind other value} h hs => ?_⟩
  obtain ⟨d, other, rfl⟩ := List.exists_cons_of_ne_nil h.ne_nil
  obtain ⟨rfl, -⟩ := List.cons_prefix_cons.1 hs
  exact length_numeral_le (h.of_digit hc).1 hs

theorem quoted_unique (hc : IsQuote c) {inner inner' value value' more more' : List Char}
    (h : Quoted c inner value) (h' : Quoted c inner' value')
    (hs : inner ++ c :: more = inner' ++ c :: more') : inner = inner' := by
  have hread := quoted_complete hc h more
  rw [hs, quoted_complete hc h' more'] at hread
  have hlength : inner'.length + 1 = inner.length + 1 := congrArg Prod.snd (Except.ok.inj hread)
  exact (List.append_inj hs (Nat.succ.inj hlength).symm).1

theorem quoted_longest (hc : IsQuote c) {inner value more : List Char} (h : Quoted c inner value) :
    Longest (c :: inner ++ [c]) (c :: (inner ++ c :: more)) := by
  apply Longest.of_cons ⟨more, by simp⟩
  intro kind other value' h' hs
  obtain ⟨-, inner', rfl, hinner'⟩ := h'.of_quote hc
  obtain ⟨more', hs⟩ := hs
  rw [List.append_assoc] at hs
  rw [quoted_unique hc h hinner' hs.symm]
  exact Nat.le_refl _

theorem word_longest (hc : startsWord c) :
    Longest (c :: rest.takeWhile continuesWord) (c :: rest) := by
  apply Longest.of_cons (List.takeWhile_prefix _)
  intro kind other value h hs
  exact length_le_takeWhile hs (h.of_startsWord hc).1.2

/-- A spelling that is neither a number, a string nor a word is an operator. -/
theorem operator_cases (hd : ¬ c.isDigit) (hq : ¬ IsQuote c) (hw : ¬ startsWord c)
    {kind : TokenKind} {text value : List Char} (h : Spells kind (c :: text) value)
    (hs : text <+: rest) :
    text = [] ∧ singleKind? c = some kind ∨
      ∃ d, text = [d] ∧ rest.head? = some d ∧ pairKind? c d = some kind := by
  obtain ⟨hfixed, -, hlength⟩ := h.of_other hd hq hw
  cases text with
  | nil => exact .inl ⟨rfl, singleKind?_iff.2 hfixed⟩
  | cons d text =>
    obtain rfl : text = [] := List.eq_nil_of_length_eq_zero
      (Nat.le_zero.1 (Nat.le_of_succ_le_succ hlength))
    obtain ⟨more, rfl⟩ := hs
    exact .inr ⟨d, rfl, rfl, pairKind?_iff.2 hfixed⟩

theorem operator_fits (hd : ¬ c.isDigit) (hq : ¬ IsQuote c) (hw : ¬ startsWord c) {l : Lexeme}
    (h : operator c rest = .ok l) : l.Fits (c :: rest) := by
  unfold operator at h
  split at h
  · next hpair =>
    cases h
    simp only [Option.bind_eq_some_iff, Option.map_eq_some_iff, Prod.mk.injEq] at hpair
    obtain ⟨d, hhead, kind, hkind, rfl, rfl⟩ := hpair
    obtain ⟨more, rfl⟩ := List.head?_eq_some_iff.1 hhead
    refine ⟨[c, d], rfl, .fixed (pairKind?_iff.1 hkind), Longest.of_cons ⟨more, rfl⟩ ?_⟩
    intro kind other value h hs
    exact (h.of_other hd hq hw).2.2
  · next hpair =>
    split at h
    · next hsingle =>
      cases h
      refine ⟨[c], rfl, .fixed (singleKind?_iff.1 hsingle), Longest.of_cons ⟨rest, rfl⟩ ?_⟩
      intro kind other value h hs
      obtain ⟨rfl, -⟩ | ⟨d, -, hhead, hkind⟩ := operator_cases hd hq hw h hs
      · exact Nat.le_refl _
      · simp [hhead, hkind] at hpair
    · cases h

theorem operator_unspelled (hd : ¬ c.isDigit) (hq : ¬ IsQuote c) (hw : ¬ startsWord c)
    {fault : ExprFault} (h : operator c rest = .error fault) :
    Unspelled (c :: rest) ∧ fault = .unexpectedCharacter c := by
  unfold operator at h
  split at h
  · cases h
  · next hpair =>
    split at h
    · cases h
    · next hsingle =>
      cases h
      refine ⟨Unspelled.of_cons fun {kind text value} h hs => ?_, rfl⟩
      obtain ⟨-, hkind⟩ | ⟨d, -, hhead, hkind⟩ := operator_cases hd hq hw h hs
      · rw [hsingle] at hkind
        cases hkind
      · simp [hhead, hkind] at hpair

theorem read_fits {l : Lexeme} (h : read c rest = .ok l) : l.Fits (c :: rest) := by
  unfold read at h
  split at h
  · next hd =>
    cases h
    exact ⟨_, rfl, .number (isNumeral_numberSpan hd rest), numberSpan_longest hd⟩
  · next hd =>
    split at h
    · next hq =>
      cases hread : quoted c rest with
      | error => rw [hread] at h; cases h
      | ok r =>
        rw [hread] at h
        cases h
        obtain ⟨inner, more, rfl, hlength, hinner⟩ := quoted_sound hread
        refine ⟨c :: inner ++ [c], ?_, .string hq hinner, quoted_longest hq hinner⟩
        simp [hlength]
    · next hq =>
      split at h
      · next hw =>
        cases h
        have hword : IsWord (c :: rest.takeWhile continuesWord) :=
          ⟨hw, List.all_eq_true.1 List.all_takeWhile⟩
        exact ⟨_, rfl, hword.spells, word_longest hw⟩
      · next hw => exact operator_fits hd hq hw h

theorem quoted_unspelled (hq : IsQuote c) {fault : ExprFault} (h : quoted c rest = .error fault) :
    Unspelled (c :: rest) := by
  apply Unspelled.of_cons
  intro kind text value htext hs
  obtain ⟨-, inner, rfl, hinner⟩ := htext.of_quote hq
  obtain ⟨more, rfl⟩ := hs
  rw [List.append_assoc, List.singleton_append, quoted_complete hq hinner] at h
  cases h

/-- Why no token starts with `c`. -/
def Stops (c : Char) (fault : ExprFault) : Prop :=
  if IsQuote c then fault = .unterminatedString ∨ fault = .unterminatedEscape
  else fault = .unexpectedCharacter c

theorem read_unspelled {fault : ExprFault} (h : read c rest = .error fault) :
    Unspelled (c :: rest) ∧ Stops c fault := by
  unfold read at h
  split at h
  · cases h
  · next hd =>
    split at h
    · next hq =>
      cases hread : quoted c rest with
      | ok => rw [hread] at h; cases h
      | error =>
        rw [hread] at h
        cases h
        exact ⟨quoted_unspelled hq hread, (if_pos hq).mpr (quoted_fault hread)⟩
    · next hq =>
      split at h
      · cases h
      · next hw =>
        obtain ⟨hun, rfl⟩ := operator_unspelled hd hq hw h
        exact ⟨hun, (if_neg hq).mpr rfl⟩

theorem read_longest {kind : TokenKind} {text value : List Char} (h : Spells kind text value)
    (hl : Longest text (c :: rest)) :
    ∃ l, read c rest = .ok l ∧ l.kind = kind ∧ l.value = value ∧ l.length = text.length := by
  cases hread : read c rest with
  | error fault => exact absurd hl.isPrefix ((read_unspelled hread).1 h)
  | ok l =>
    obtain ⟨text', hlength, hspells, hlongest⟩ := read_fits hread
    obtain rfl : text = text' := hl.unique hlongest h hspells
    obtain ⟨hkind, hvalue⟩ := hspells.unique h
    exact ⟨l, rfl, hkind, hvalue, hlength.symm⟩

end Lexeme

end PageFlow
