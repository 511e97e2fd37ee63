import PageFlow.Proofs.Number.Numerals
import PageFlow.Proofs.Template.Reference
import PageFlow.Value

namespace PageFlow.Value

open Pattern

variable {core : List Char}

inductive Numeric : List Char → Prop
  | blank : Numeric []
  | infinity {s : List Char} (hs : s ∈ sign.matches') : Numeric (s ++ "Infinity".toList)
  | numeral {text : List Char} (h : text ∈ numeral.matches') : Numeric text

theorem inNumerals_of_numeral (h : core ∈ numeral.matches') : ∀ c ∈ core, inNumerals c := by
  have hall : (letters numeral).all inNumerals := by decide
  exact fun c hc => List.all_eq_true.1 hall c (mem_letters h c hc)

/-- No word for a number is made of the characters of numerals. -/
theorem ofWord?_of_inNumerals (h : ∀ c ∈ core, inNumerals c) : Double.ofWord? core = none := by
  have hlower : ∀ c, inNumerals c → c.toLower ≠ 'n' := by
    have hdigit : decimalDigits.all (·.toLower != 'n') := by decide
    have hother : ['.', '+', '-', 'e', 'E'].all (·.toLower != 'n') := by decide
    intro c hc
    rw [inNumerals, Bool.or_eq_true, List.contains_iff_mem] at hc
    rcases hc with hc | hc
    · exact bne_iff_ne.1 (all_digits hdigit hc)
    · exact bne_iff_ne.1 (List.all_eq_true.1 hother c hc)
  rw [← Option.not_isSome_iff_eq_none, Double.isSome_ofWord?_iff]
  rintro ⟨s, -, word, hword, htext⟩
  have hn : ∀ w ∈ Double.words, 'n' ∈ w := by decide
  have hmem : 'n' ∈ core.map Char.toLower := by
    rw [htext]
    exact List.mem_append_right s (hn word hword)
  obtain ⟨c, hc, heq⟩ := List.mem_map.1 hmem
  exact hlower c (h c hc) heq

theorem isNaN_ofText? (h : ∀ c ∈ core, inNumerals c) :
    ((Double.ofText? core).getD .nan).isNaN = false ↔ core ∈ numeral.matches' := by
  rw [Double.ofText?, ofWord?_of_inNumerals h, Option.or_none, ← Double.isSome_ofNumeral?_iff,
    Double.ofNumeral?]
  cases readNumeral? core with
  | none => simp [Double.isNaN]
  | some read => simp [Double.isNaN]

theorem numeric_cons_iff {c : Char} : Numeric (c :: core) ↔
    (c :: core = "Infinity".toList ∨ c :: core = "+Infinity".toList) ∨
      c :: core = "-Infinity".toList ∨ c :: core ∈ numeral.matches' := by
  constructor
  · intro h
    generalize htext : c :: core = text at h
    cases h with
    | blank => cases htext
    | infinity hs =>
      rcases mem_sign.1 hs with rfl | rfl | rfl
      · exact .inl (.inl rfl)
      · exact .inl (.inr rfl)
      · exact .inr (.inl rfl)
    | numeral h => exact .inr (.inr h)
  · rintro ((h | h) | h | h)
    · exact h ▸ .infinity (mem_sign.2 (.inl rfl))
    · exact h ▸ .infinity (mem_sign.2 (.inr (.inl rfl)))
    · exact h ▸ .infinity (mem_sign.2 (.inr (.inr rfl)))
    · exact .numeral h

theorem isNaN_numberOfText (s : List Char) :
    (numberOfText s).isNaN = false ↔ Numeric (Text.trim s) := by
  rw [numberOfText]
  generalize Text.trim s = core
  cases core with
  | nil => exact iff_of_true rfl .blank
  | cons c core =>
    dsimp only
    rw [numeric_cons_iff]
    split
    · next h => exact iff_of_true rfl (.inl h)
    · next hplus =>
      rw [or_iff_right hplus]
      split
      · next h => exact iff_of_true rfl (.inl h)
      · next hminus =>
        rw [or_iff_right hminus]
        split
        · next hfilter =>
          rw [Bool.and_eq_true, List.all_eq_true] at hfilter
          exact isNaN_ofText? hfilter.1
        · next hfilter =>
          refine iff_of_false nofun fun h => hfilter ?_
          rw [Bool.and_eq_true, List.all_eq_true, List.any_eq_true]
          exact ⟨inNumerals_of_numeral h, exists_isDigit h⟩

/--
A text is a number if there is nothing between the white space at its ends, or infinity by its name,
or a numeral. No other text is one.
-/
theorem text_recognised (s : String) : Text.Trims s.toList (Text.trim s.toList) ∧
    ((text s).toNumber.isNaN = false ↔ Numeric (Text.trim s.toList)) :=
  ⟨Text.trims_trim s.toList, isNaN_numberOfText s.toList⟩

example : ∀ s ∈ ["inf", "nan", "0x1F", "1_000", "५", "1 2", "+-1", "1e2e3", ".", "1e"],
    (text s).toNumber.isNaN := by
  decide

end PageFlow.Value
