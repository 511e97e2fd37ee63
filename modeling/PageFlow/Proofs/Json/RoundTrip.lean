import PageFlow.Json.Printer
import PageFlow.Json.Reader
import PageFlow.Proofs.Json.Integers
import PageFlow.Proofs.Table

namespace PageFlow.Json

variable {α : Type} {s t rest : List Char}

def Reads (r : Option (α × Remainder s)) (a : α) (rest : List Char) : Prop :=
  ∃ h, r = some (a, ⟨rest, h⟩)

section

variable {c : Char} {cs : List Char}

theorem reads_close : Reads (readQuoted? ('"' :: rest)) [] rest := by
  rw [readQuoted?]
  exact ⟨_, rfl⟩

theorem Reads.escaped (he : readEscape? t = some (c, s)) (h : Reads (readQuoted? s) cs rest) :
    Reads (readQuoted? ('\\' :: t)) (c :: cs) rest := by
  obtain ⟨hlen, hread⟩ := h
  rw [readQuoted?]
  split
  · next hnone => cases hnone.symm.trans he
  · next hsome =>
    cases hsome.symm.trans he
    dsimp only
    rw [hread]
    exact ⟨_, rfl⟩

theorem Reads.plain (hquote : c ≠ '"') (hslash : c ≠ '\\') (hcontrol : ¬ c.toNat < 0x20)
    (h : Reads (readQuoted? s) cs rest) : Reads (readQuoted? (c :: s)) (c :: cs) rest := by
  obtain ⟨hlen, hread⟩ := h
  rw [readQuoted?]
  · rw [if_neg hcontrol, hread]
    exact ⟨_, rfl⟩
  · exact hquote
  · exact hslash

theorem hexDigit?_digitChar {n : Nat} (h : n < 16) : hexDigit? (Nat.digitChar n) = some n := by
  decide +revert

/-- Controls are written as units below 32. -/
theorem readEscape?_control (h : c.toNat < 0x20) : readEscape?
    ('u' :: '0' :: '0' :: Nat.digitChar (c.toNat / 16) :: Nat.digitChar (c.toNat % 16) :: s) =
      some (c, s) := by
  have hunit : unit? '0' '0' (Nat.digitChar (c.toNat / 16)) (Nat.digitChar (c.toNat % 16)) =
      some c.toNat := by
    have hhigh := hexDigit?_digitChar (n := c.toNat / 16) (by omega)
    have hlow := hexDigit?_digitChar (n := c.toNat % 16) (by omega)
    have hzero : hexDigit? '0' = some 0 := rfl
    simp only [unit?, hzero, hhigh, hlow, bind, Option.bind, pure, Option.some.injEq]
    omega
  have hlone : lone? c.toNat = some c := by
    rw [lone?, if_neg (by omega), Char.ofNat_toNat]
  simp only [readEscape?, hunit, hlone]

theorem Reads.escape (c : Char) (h : Reads (readQuoted? s) cs rest) :
    Reads (readQuoted? (escape c ++ s)) (c :: cs) rest := by
  fun_cases Json.escape c with
  | case1 | case2 | case3 | case4 | case5 | case6 | case7 => exact h.escaped rfl
  | case8 _ _ _ _ _ _ _ _ hcontrol => exact h.escaped (readEscape?_control hcontrol)
  | case9 _ hquote hslash _ _ _ _ _ hcontrol => exact h.plain hquote hslash hcontrol

theorem quoted_append (s : String) (t : List Char) :
    quoted s ++ t = '"' :: (s.toList.flatMap Json.escape ++ '"' :: t) := by
  rw [quoted, List.cons_append, List.append_assoc, List.singleton_append]

theorem reads_quoted (cs rest : List Char) :
    Reads (readQuoted? (cs.flatMap Json.escape ++ '"' :: rest)) cs rest := by
  induction cs with
  | nil => exact reads_close
  | cons c cs ih =>
    rw [List.flatMap_cons, List.append_assoc]
    exact ih.escape c

end

/-- The text after a number does not go on with it. -/
def NumberEnds (rest : List Char) : Prop :=
  ∀ c ∈ rest.head?, c.isDigit = false ∧ c ≠ '.' ∧ c ≠ 'e' ∧ c ≠ 'E'

theorem numberEnds_nil : NumberEnds [] := nofun

theorem numberEnds_comma : NumberEnds (',' :: rest) := by
  simp [NumberEnds]

theorem numberEnds_bracket : NumberEnds (']' :: rest) := by
  simp [NumberEnds]

theorem numberEnds_brace : NumberEnds ('\x7d' :: rest) := by
  simp [NumberEnds]

theorem isDigit_of_mem_toDigits {n : Nat} {c : Char} (h : c ∈ Nat.toDigits 10 n) : c.isDigit :=
  Nat.isDigit_of_mem_toDigits (by decide) (by decide) h

theorem exists_toDigits (n : Nat) : ∃ c digits, Nat.toDigits 10 n = c :: digits ∧ c.isDigit := by
  cases hdigits : Nat.toDigits 10 n with
  | nil => exact absurd hdigits Nat.toDigits_ne_nil
  | cons c digits =>
    exact ⟨c, digits, rfl, isDigit_of_mem_toDigits (n := n) (hdigits ▸ List.mem_cons_self)⟩

theorem head?_toDigits {n : Nat} (h : 0 < n) : (Nat.toDigits 10 n).head? ≠ some '0' := by
  induction n using Nat.strongRecOn with
  | ind n ih =>
    rcases Nat.lt_or_ge n 10 with hlt | hge
    · rw [Nat.toDigits_of_lt_base hlt]
      simpa using Nat.ne_of_gt h
    · have hfirst := ih (n / 10) (by omega) (by omega)
      rw [Nat.toDigits_of_base_le (by decide) hge, List.head?_append]
      obtain ⟨c, digits, hdigits, -⟩ := exists_toDigits (n / 10)
      rw [hdigits] at hfirst ⊢
      exact hfirst

namespace NumberEnds

variable (h : NumberEnds rest)
include h

theorem takeFraction : takeFraction? rest = some (none, rest) := by
  cases rest with
  | nil => rfl
  | cons c rest =>
    rw [takeFraction?]
    intro more heq
    exact (h c rfl).2.1 (List.cons.inj heq).1

theorem takeExponent : takeExponent? rest = some (none, rest) := by
  cases rest with
  | nil => rfl
  | cons c rest =>
    obtain ⟨-, -, hlower, hupper⟩ := h c rfl
    rw [takeExponent?, if_neg (not_or.2 ⟨hlower, hupper⟩)]

theorem takeDigits {digits : List Char} (hdigits : ∀ c ∈ digits, c.isDigit) (hne : digits ≠ []) :
    takeDigits? (digits ++ rest) = some (digits, rest) := by
  have hstop : ∀ c ∈ rest.head?, ¬ c.isDigit := fun c hc => Bool.eq_false_iff.1 (h c hc).1
  rw [takeDigits?, takeWhile_run hdigits hstop, dropWhile_run hdigits hstop]
  cases digits with
  | nil => exact absurd rfl hne
  | cons c digits => rfl

theorem takeWhole (n : Nat) :
    takeWhole? (Nat.toDigits 10 n ++ rest) = some (Nat.toDigits 10 n, rest) := by
  rw [takeWhole?, h.takeDigits (fun c => isDigit_of_mem_toDigits) Nat.toDigits_ne_nil]
  split
  · next hzero =>
    simp only [Option.some.injEq, Prod.mk.injEq] at hzero
    rcases Nat.eq_zero_or_pos n with rfl | hpos
    · cases hzero.1
    · exact absurd (by rw [hzero.1]; rfl) (head?_toDigits hpos)
  · rfl

theorem readUnsigned (negative : Bool) (n : Nat) :
    readUnsigned? negative (Nat.toDigits 10 n ++ rest) =
      (Numeral.whole? negative (Nat.toDigits 10 n)).map (·, rest) := by
  simp only [readUnsigned?, h.takeWhole, h.takeFraction, h.takeExponent, bind, Option.bind, pure]
  cases Numeral.whole? negative (Nat.toDigits 10 n) <;> rfl

theorem readNumber {n : Int} (hlow : -2 ^ 63 ≤ n) (hhigh : n < 2 ^ 64) :
    readNumber? ((Numeral.int n).text ++ rest) = some (.int n, rest) := by
  rw [Numeral.text]
  split
  · next hneg =>
    rw [List.cons_append, readNumber?, h.readUnsigned, Numeral.whole?,
      Nat.ofDigitChars_ten_toDigits]
    rw [if_pos rfl, if_pos (by omega)]
    simp only [Option.map_some, Option.some.injEq, Prod.mk.injEq, Numeral.int.injEq, and_true]
    omega
  · next hpos =>
    rw [readNumber?, h.readUnsigned, Numeral.whole?, Nat.ofDigitChars_ten_toDigits]
    · rw [if_neg nofun, if_pos (by omega)]
      simp only [Option.map_some, Option.some.injEq, Prod.mk.injEq, Numeral.int.injEq, and_true]
      omega
    · intro more heq
      obtain ⟨c, digits, hdigits, hc⟩ := exists_toDigits n.natAbs
      rw [hdigits] at heq
      rw [(List.cons.inj heq).1] at hc
      cases hc

end NumberEnds

namespace Reads

variable {item : (s : List Char) → Option (α × Remainder s)} {a : α} {as : List α} {close c : Char}
  {j : Json} {budget : Nat} {key : List Char} {fields : List (String × Json)} {items : List Json}

theorem skipSpace_cons (h : isSpace c = false) : skipSpace (c :: s) = c :: s := by
  rw [skipSpace, List.dropWhile_cons_of_neg (by simp [h])]

theorem last (h : Reads (item s) a (close :: rest)) (hclose : isSpace close = false) :
    Reads (readItems? item close s) [a] rest := by
  obtain ⟨hlen, hitem⟩ := h
  rw [readItems?, hitem]
  dsimp only
  split
  · next hnil => cases hnil.symm.trans (skipSpace_cons hclose)
  · next hcons =>
    cases hcons.symm.trans (skipSpace_cons hclose)
    rw [if_pos rfl]
    exact ⟨_, rfl⟩

theorem more (h : Reads (item s) a (',' :: t)) (hclose : close ≠ ',')
    (hrest : Reads (readItems? item close t) as rest) :
    Reads (readItems? item close s) (a :: as) rest := by
  obtain ⟨hlen, hitem⟩ := h
  obtain ⟨hlen', hitems⟩ := hrest
  have hspace : isSpace ',' = false := rfl
  rw [readItems?, hitem]
  dsimp only
  split
  · next hnil => cases hnil.symm.trans (skipSpace_cons hspace)
  · next hcons =>
    cases hcons.symm.trans (skipSpace_cons hspace)
    rw [if_neg hclose.symm, if_pos rfl, hitems]
    exact ⟨_, rfl⟩

theorem readList?_cons (hspace : isSpace c = false) : readList? item close (c :: s) =
    if c = close then Option.some ([], ⟨s, Nat.lt_succ_self _⟩)
    else readItems? item close (c :: s) := by
  rw [readList?]
  split
  · next hnil => cases hnil.symm.trans (skipSpace_cons hspace)
  · next hcons =>
    cases hcons.symm.trans (skipSpace_cons hspace)
    rfl

theorem none (hclose : isSpace close = false) :
    Reads (readList? item close (close :: rest)) [] rest := by
  rw [readList?_cons hclose, if_pos rfl]
  exact ⟨_, rfl⟩

theorem some (hspace : isSpace c = false) (hne : c ≠ close)
    (h : Reads (readItems? item close (c :: s)) as rest) :
    Reads (readList? item close (c :: s)) as rest := by
  rw [readList?_cons hspace, if_neg hne]
  exact h

theorem readValue?_cons (hspace : isSpace c = false) (budget : Nat) :
    grammar.readValue? budget (c :: s) =
      if c = '"' then
        (readText? s).map fun (text, ⟨rest, h⟩) => (string text, ⟨rest, Nat.lt_succ_of_lt h⟩)
      else if c = '[' then
        match budget with
        | 0 => Option.none
        | budget + 1 => (readList? (grammar.readValue? budget) ']' s).map
          fun (items, ⟨rest, h⟩) => (Json.array items, ⟨rest, Nat.lt_succ_of_lt h⟩)
      else if c = '\x7b' then
        match budget with
        | 0 => Option.none
        | budget + 1 => (readList? (grammar.readField? (grammar.readValue? budget)) '\x7d' s).map
          fun (fields, ⟨rest, h⟩) =>
            (Json.object (Table.ofList fields), ⟨rest, Nat.lt_succ_of_lt h⟩)
      else shorter (c :: s) (readScalar? (c :: s)) := by
  rw [Grammar.readValue?]
  split
  · next hnil => cases hnil.symm.trans (skipSpace_cons hspace)
  · next hcons =>
    cases hcons.symm.trans (skipSpace_cons hspace)
    rfl

theorem text (h : Reads (readQuoted? s) key rest) :
    Reads (grammar.readValue? budget ('"' :: s)) (.string (String.ofList key)) rest := by
  obtain ⟨hlen, hread⟩ := h
  rw [readValue?_cons rfl, if_pos rfl, readText?, hread]
  exact ⟨_, rfl⟩

theorem array (h : Reads (readList? (grammar.readValue? budget) ']' s) items rest) :
    Reads (grammar.readValue? (budget + 1) ('[' :: s)) (.array items) rest := by
  obtain ⟨hlen, hread⟩ := h
  rw [readValue?_cons rfl, if_neg (by decide), if_pos rfl]
  dsimp only
  rw [hread]
  exact ⟨_, rfl⟩

theorem object (h : Reads (readList? (grammar.readField? (grammar.readValue? budget)) '\x7d' s)
    fields rest) :
    Reads (grammar.readValue? (budget + 1) ('\x7b' :: s)) (.object (Table.ofList fields)) rest := by
  obtain ⟨hlen, hread⟩ := h
  rw [readValue?_cons rfl, if_neg (by decide), if_neg (by decide), if_pos rfl]
  dsimp only
  rw [hread]
  exact ⟨_, rfl⟩

theorem scalar (hspace : isSpace c = false) (hquote : c ≠ '"') (hbracket : c ≠ '[')
    (hbrace : c ≠ '\x7b') (h : readScalar? (c :: s) = Option.some (j, rest))
    (hrest : rest <:+ s) : Reads (grammar.readValue? budget (c :: s)) j rest := by
  have hlen : rest.length < (c :: s).length := Nat.lt_succ_of_le hrest.length_le
  rw [readValue?_cons hspace, if_neg hquote, if_neg hbracket, if_neg hbrace, h, shorter,
    dif_pos hlen]
  exact ⟨_, rfl⟩

theorem afterColon : afterColon? (':' :: t) = Option.some ⟨t, Nat.lt_succ_self _⟩ := by
  rw [afterColon?]
  split
  · next hcons =>
    cases hcons.symm.trans (skipSpace_cons rfl)
    rfl
  · next hno => exact absurd (skipSpace_cons rfl) (hno t)

theorem field (hkey : Reads (readQuoted? s) key (':' :: t))
    (hvalue : Reads (grammar.readValue? budget t) j rest) :
    Reads (grammar.readField? (grammar.readValue? budget) ('"' :: s)) (String.ofList key, j)
      rest := by
  obtain ⟨hlen, hread⟩ := hkey
  obtain ⟨hlen', hread'⟩ := hvalue
  have hkey : grammar.key? s = Option.some (String.ofList key, ⟨t, by simp at hlen; omega⟩) := by
    change readKey? s = _
    rw [readKey?, hread]
    dsimp only
    rw [afterColon]
    rfl
  rw [Grammar.readField?]
  split
  · next hcons =>
    cases hcons.symm.trans (skipSpace_cons rfl)
    rw [hkey]
    dsimp only
    rw [hread']
    exact ⟨_, rfl⟩
  · next hno => exact absurd (skipSpace_cons rfl) (hno s)

end Reads

mutual

def Ordered : Json → Prop
  | array items => OrderedItems items
  | object fields => Table.Sorted fields ∧ OrderedFields fields
  | null | bool _ | number _ | string _ => True

def OrderedItems : List Json → Prop
  | [] => True
  | item :: rest => item.Ordered ∧ OrderedItems rest

def OrderedFields : List (String × Json) → Prop
  | [] => True
  | (_, value) :: rest => value.Ordered ∧ OrderedFields rest

end

/-- No text of a value starts with a blank or with what closes a list. -/
def Opens (c : Char) : Prop :=
  isSpace c = false ∧ c ≠ ']' ∧ c ≠ '\x7d'

instance : DecidablePred Opens := fun _ => inferInstanceAs (Decidable (_ ∧ _))

theorem opens_of_isDigit {c : Char} (h : c.isDigit) : Opens c := by
  have hspace : isSpace c = false := by
    cases hc : isSpace c with
    | false => rfl
    | true =>
      simp only [isSpace, Bool.or_eq_true, beq_iff_eq] at hc
      rcases hc with ((rfl | rfl) | rfl) | rfl <;> cases h
  refine ⟨hspace, ?_, ?_⟩ <;> · rintro rfl; cases h

theorem exists_text {n : Numeral} (h : n.IsInteger) :
    ∃ c cs, n.text = c :: cs ∧ (c = '-' ∨ c.isDigit) := by
  cases n with
  | float x => exact h.elim
  | int n =>
    rw [Numeral.text]
    split
    · exact ⟨_, _, rfl, .inl rfl⟩
    · obtain ⟨c, digits, hdigits, hc⟩ := exists_toDigits n.natAbs
      exact ⟨c, digits, hdigits, .inr hc⟩

theorem exists_chars {j : Json} (h : j.Integral) : ∃ c cs, j.chars = c :: cs ∧ Opens c := by
  cases j with
  | number n =>
    obtain ⟨c, cs, htext, rfl | hc⟩ := exists_text (h n (List.mem_singleton_self n))
    · exact ⟨_, cs, htext, by decide⟩
    · exact ⟨c, cs, htext, opens_of_isDigit hc⟩
  | null => exact ⟨'n', _, rfl, by decide⟩
  | bool b =>
    cases b with
    | false => exact ⟨'f', _, rfl, by decide⟩
    | true => exact ⟨'t', _, rfl, by decide⟩
  | string => exact ⟨'"', _, rfl, by decide⟩
  | array => exact ⟨'[', _, rfl, by decide⟩
  | object => exact ⟨'\x7b', _, rfl, by decide⟩

/-- A number is not read as a word, and neither as anything in quotes or brackets. -/
theorem Reads.number {n : Numeral} {budget : Nat} (h : n.IsInteger) (hends : NumberEnds rest) :
    Reads (grammar.readValue? budget ((Json.number n).chars ++ rest)) (.number n) rest := by
  obtain ⟨c, cs, htext, hc⟩ := exists_text h
  have hread : readNumber? (n.text ++ rest) = Option.some (n, rest) := by
    cases n with
    | float x => exact h.elim
    | int n => exact hends.readNumber h.1 h.2
  have hplain : isSpace c = false ∧ c ≠ '"' ∧ c ≠ '[' ∧ c ≠ '\x7b' ∧
      c ≠ 'n' ∧ c ≠ 't' ∧ c ≠ 'f' := by
    rcases hc with rfl | hc
    · decide
    · refine ⟨(opens_of_isDigit hc).1, ?_, ?_, ?_, ?_, ?_, ?_⟩ <;> · rintro rfl; cases hc
  obtain ⟨hspace, hquote, hbracket, hbrace, hn, ht, hf⟩ := hplain
  change Reads (grammar.readValue? budget (n.text ++ rest)) _ _
  rw [htext, List.cons_append] at hread ⊢
  refine .scalar hspace hquote hbracket hbrace ?_ (List.suffix_append cs rest)
  have hword : readWord? (c :: (cs ++ rest)) = Option.none := by
    rw [readWord?]
    · rintro _ heq; exact hn (List.cons.inj heq).1
    · rintro _ heq; exact ht (List.cons.inj heq).1
    · rintro _ heq; exact hf (List.cons.inj heq).1
  rw [readScalar?, hword]
  dsimp only
  rw [hread]
  rfl

theorem Reads.items {items : List Json} {budget : Nat} (hintegral : (Json.array items).Integral)
    (h : items ≠ [] → Reads (readItems? (grammar.readValue? budget) ']'
      (itemChars items ++ ']' :: rest)) items rest) :
    Reads (readList? (grammar.readValue? budget) ']' (itemChars items ++ ']' :: rest)) items
      rest := by
  cases items with
  | nil => exact .none rfl
  | cons item more =>
    have hitem : item.Integral := (List.forall_mem_append.1 hintegral).1
    obtain ⟨c, cs, hchars, hspace, hbracket, -⟩ := exists_chars hitem
    obtain ⟨tail, htail⟩ : ∃ tail, itemChars (item :: more) = c :: tail := by
      cases more with
      | nil => exact ⟨cs, hchars⟩
      | cons next more => exact ⟨_, by rw [itemChars, hchars]; rfl; exact nofun⟩
    have hread := h nofun
    rw [htail] at hread ⊢
    exact .some hspace hbracket hread

theorem Reads.fields {fields : List (String × Json)} {budget : Nat}
    (h : fields ≠ [] → Reads (readItems? (grammar.readField? (grammar.readValue? budget)) '\x7d'
      (fieldChars fields ++ '\x7d' :: rest)) fields rest) :
    Reads (readList? (grammar.readField? (grammar.readValue? budget)) '\x7d'
      (fieldChars fields ++ '\x7d' :: rest)) fields rest := by
  cases fields with
  | nil => exact .none rfl
  | cons field more =>
    have hread := h nofun
    cases more with
    | nil => exact .some rfl (by decide) hread
    | cons next more => exact .some rfl (by decide) hread

mutual

theorem reads_chars : ∀ (j : Json) (budget : Nat) (rest : List Char), j.Ordered → j.Integral →
    j.depth ≤ budget → NumberEnds rest → Reads (grammar.readValue? budget (j.chars ++ rest)) j rest
  | null, _, rest, _, _, _, _ =>
    .scalar rfl (by decide) (by decide) (by decide) rfl (List.suffix_append ['u', 'l', 'l'] rest)
  | bool true, _, rest, _, _, _, _ =>
    .scalar rfl (by decide) (by decide) (by decide) rfl (List.suffix_append ['r', 'u', 'e'] rest)
  | bool false, _, rest, _, _, _, _ =>
    .scalar rfl (by decide) (by decide) (by decide) rfl
      (List.suffix_append ['a', 'l', 's', 'e'] rest)
  | number n, _, _, _, hintegral, _, hends =>
    .number (hintegral n (List.mem_singleton_self n)) hends
  | string s, budget, rest, _, _, _, _ => by
    have htext : Reads (grammar.readValue? budget _) _ _ := .text (reads_quoted s.toList rest)
    rw [String.ofList_toList] at htext
    rwa [chars, quoted_append]
  | array items, budget, rest, hordered, hintegral, hdepth, _ => by
    rw [depth] at hdepth
    obtain ⟨budget, rfl⟩ : ∃ below, budget = below + 1 := Nat.exists_eq_add_one.2 (by omega)
    have hitems := reads_itemChars items budget rest hordered hintegral (by omega)
    rw [chars, List.cons_append, List.append_assoc]
    exact .array (.items hintegral hitems)
  | object fields, budget, rest, ⟨hsorted, hordered⟩, hintegral, hdepth, _ => by
    rw [depth] at hdepth
    obtain ⟨budget, rfl⟩ : ∃ below, budget = below + 1 := Nat.exists_eq_add_one.2 (by omega)
    have hfields := reads_fieldChars fields budget rest hordered hintegral (by omega)
    have hobject := Reads.object (.fields hfields)
    rw [Table.ofList_of_sorted hsorted] at hobject
    rwa [chars, List.cons_append, List.append_assoc]

theorem reads_itemChars : ∀ (items : List Json) (budget : Nat) (rest : List Char),
    OrderedItems items → (∀ n ∈ numbersOfItems items, n.IsInteger) → depthOfItems items ≤ budget →
    items ≠ [] →
    Reads (readItems? (grammar.readValue? budget) ']' (itemChars items ++ ']' :: rest)) items rest
  | [item], budget, rest, ⟨hitem, _⟩, hintegral, hdepth, _ => by
    have hlast := reads_chars item budget (']' :: rest) hitem
      (List.forall_mem_append.1 hintegral).1 (Nat.le_trans (Nat.le_max_left ..) hdepth)
      numberEnds_bracket
    exact hlast.last rfl
  | item :: next :: more, budget, rest, ⟨hitem, hordered⟩, hintegral, hdepth, _ => by
    rw [numbersOfItems, List.forall_mem_append] at hintegral
    rw [depthOfItems] at hdepth
    have hfirst := reads_chars item budget (',' :: (itemChars (next :: more) ++ ']' :: rest)) hitem
      hintegral.1 (by omega) numberEnds_comma
    have hmore := reads_itemChars (next :: more) budget rest hordered hintegral.2 (by omega) nofun
    rw [itemChars, List.append_assoc, List.cons_append]
    · exact hfirst.more (by decide) hmore
    · exact nofun

theorem reads_fieldChars : ∀ (fields : List (String × Json)) (budget : Nat) (rest : List Char),
    OrderedFields fields → (∀ n ∈ numbersOfFields fields, n.IsInteger) →
    depthOfFields fields ≤ budget → fields ≠ [] →
    Reads (readItems? (grammar.readField? (grammar.readValue? budget)) '\x7d'
      (fieldChars fields ++ '\x7d' :: rest)) fields rest
  | [(key, value)], budget, rest, ⟨hvalue, _⟩, hintegral, hdepth, _ => by
    have hlast := reads_chars value budget ('\x7d' :: rest) hvalue
      (List.forall_mem_append.1 hintegral).1 (Nat.le_trans (Nat.le_max_left ..) hdepth)
      numberEnds_brace
    have hfield := (reads_quoted key.toList _).field hlast
    rw [String.ofList_toList] at hfield
    rw [fieldChars, List.append_assoc, List.cons_append, quoted_append]
    exact hfield.last rfl
  | (key, value) :: next :: more, budget, rest, ⟨hvalue, hordered⟩, hintegral, hdepth, _ => by
    rw [numbersOfFields, List.forall_mem_append] at hintegral
    rw [depthOfFields] at hdepth
    have hfirst := reads_chars value budget (',' :: (fieldChars (next :: more) ++ '\x7d' :: rest))
      hvalue hintegral.1 (by omega) numberEnds_comma
    have hfield := (reads_quoted key.toList _).field hfirst
    rw [String.ofList_toList] at hfield
    have hmore := reads_fieldChars (next :: more) budget rest hordered hintegral.2 (by omega) nofun
    rw [fieldChars, List.append_assoc, List.cons_append, List.append_assoc, List.cons_append,
      quoted_append]
    · exact hfield.more (by decide) hmore
    · exact nofun

end

/-- The compact text of a value is read as that value. -/
theorem read?_compact {j : Json} (hordered : j.Ordered) (hintegral : j.Integral)
    (hdepth : j.depth ≤ nestingLimit) : read? j.compact = some j := by
  have hread := reads_chars j nestingLimit [] hordered hintegral hdepth numberEnds_nil
  rw [List.append_nil] at hread
  obtain ⟨hlen, hread⟩ := hread
  rw [read?, compact, String.toList_ofList, readWithin?, hread]
  rfl

theorem orderedItems_iff (items : List Json) :
    OrderedItems items ↔ ∀ item ∈ items, item.Ordered := by
  induction items with
  | nil => simp [OrderedItems]
  | cons item rest ih => rw [OrderedItems, ih, List.forall_mem_cons]

theorem orderedFields_iff (fields : List (String × Json)) :
    OrderedFields fields ↔ ∀ field ∈ fields, field.2.Ordered := by
  induction fields with
  | nil => simp [OrderedFields]
  | cons field rest ih =>
    obtain ⟨key, value⟩ := field
    rw [OrderedFields, ih, List.forall_mem_cons]

section

variable {item : (s : List Char) → Option (α × Remainder s)} {P : α → Prop} {close : Char}

theorem forall_readItems? (hitem : ∀ s a r, item s = some (a, r) → P a) {s : List Char}
    {as : List α} {r : Remainder s} (h : readItems? item close s = some (as, r)) :
    ∀ a ∈ as, P a := by
  induction hn : s.length using Nat.strongRecOn generalizing s as r with
  | ind n ih =>
    rw [readItems?] at h
    split at h
    · cases h
    next a rest hlen hread =>
    have ha := hitem s a _ hread
    split at h
    · cases h
    next c more hmore =>
    split at h
    · cases h
      simpa using ha
    split at h
    · split at h
      · cases h
      · next as' after hafter hrest =>
        cases h
        have hshort := length_dropWhile_le isSpace rest
        rw [← skipSpace, hmore, List.length_cons] at hshort
        exact List.forall_mem_cons.2 ⟨ha, ih more.length (by omega) hrest rfl⟩
    · cases h

theorem forall_readList? (hitem : ∀ s a r, item s = some (a, r) → P a) {s : List Char}
    {as : List α} {r : Remainder s} (h : readList? item close s = some (as, r)) :
    ∀ a ∈ as, P a := by
  rw [readList?] at h
  split at h
  · cases h
  split at h
  · cases h
    exact List.forall_mem_nil P
  · exact forall_readItems? hitem h

end

theorem ordered_of_readScalar? {s : List Char} {j : Json} {rest : List Char}
    (h : readScalar? s = some (j, rest)) : j.Ordered := by
  rw [readScalar?] at h
  split at h
  · next word hword =>
    unfold readWord? at hword
    split at hword <;> cases hword <;> cases h <;> trivial
  · obtain ⟨n, -, hn⟩ := Option.map_eq_some_iff.1 h
    cases hn
    trivial

theorem ordered_of_readField? {value : (s : List Char) → Option (Json × Remainder s)}
    (hvalue : ∀ s j r, value s = some (j, r) → j.Ordered) (s : List Char) (field : String × Json)
    (r : Remainder s) (h : grammar.readField? value s = some (field, r)) : field.2.Ordered := by
  rw [Grammar.readField?] at h
  split at h
  · split at h
    · cases h
    split at h
    · cases h
    next hread =>
    cases h
    exact hvalue _ _ _ hread
  · cases h

theorem ordered_of_rest {budget : Nat} {s : List Char} {j : Json} {r : Remainder s}
    (rest : ∀ below, budget = below + 1 → ∀ s j r, grammar.readValue? below s = some (j, r) →
      j.Ordered) (h : grammar.readValue? budget s = some (j, r)) : j.Ordered := by
  rw [Grammar.readValue?] at h
  split at h
  · cases h
  dsimp only at h
  split at h
  · obtain ⟨text, -, htext⟩ := Option.map_eq_some_iff.1 h
    cases htext
    trivial
  split at h
  · cases budget with
    | zero => cases h
    | succ below =>
      obtain ⟨⟨items, after⟩, hitems, heq⟩ := Option.map_eq_some_iff.1 h
      cases heq
      exact (orderedItems_iff _).2 (forall_readList? (rest below rfl) hitems)
  split at h
  · cases budget with
    | zero => cases h
    | succ below =>
      obtain ⟨⟨fields, after⟩, hfields, heq⟩ := Option.map_eq_some_iff.1 h
      cases heq
      have hall := forall_readList? (ordered_of_readField? (rest below rfl)) hfields
      refine ⟨Table.sorted_ofList fields, (orderedFields_iff _).2 fun field hfield => ?_⟩
      exact hall field (Table.mem_of_mem_ofList hfield)
  · unfold shorter at h
    split at h
    · next hscalar =>
      split at h
      · cases h
        exact ordered_of_readScalar? hscalar
      · cases h
    · cases h

theorem ordered_of_readValue? {budget : Nat} {s : List Char} {j : Json} {r : Remainder s}
    (h : grammar.readValue? budget s = some (j, r)) : j.Ordered := by
  induction budget generalizing s j r with
  | zero => exact ordered_of_rest (fun below hbelow => by cases hbelow) h
  | succ budget ih =>
    apply ordered_of_rest _ h
    rintro below hbelow s j r hread
    cases hbelow
    exact ih hread

/-- Whatever is read has its fields in order. -/
theorem ordered_of_read? {text : String} {j : Json} (h : read? text = some j) : j.Ordered := by
  rw [read?, readWithin?] at h
  split at h
  · next value rest hlen hread =>
    split at h
    · cases h
      exact ordered_of_readValue? hread
    · cases h
  · cases h

end PageFlow.Json
