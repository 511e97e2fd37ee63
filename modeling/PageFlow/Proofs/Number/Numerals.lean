import Mathlib.Computability.RegularExpressions
import Mathlib.Data.List.TakeWhile
import PageFlow.Number.Decimal
import PageFlow.Proofs.Expr.Spelling

namespace PageFlow

open RegularExpression

def isSign (c : Char) : Bool :=
  c == '+' || c == '-'

namespace Pattern

def anyOf (cs : List Char) : RegularExpression Char :=
  (cs.map char).sum

/-- `r?`. -/
def optional (r : RegularExpression Char) : RegularExpression Char :=
  1 + r

/-- `D`, for a decimal digit. -/
def digit : RegularExpression Char :=
  anyOf decimalDigits

/-- `D+`. -/
def digits : RegularExpression Char :=
  digit * digit.star

/-- `[+-]?`. -/
def sign : RegularExpression Char :=
  optional (anyOf ['+', '-'])

/-- `D+(.D*)?|.D+`, where the point is meant literally. -/
def significand : RegularExpression Char :=
  digits * optional (char '.' * digit.star) + char '.' * digits

/-- `([eE][+-]?D+)?`. -/
def exponent : RegularExpression Char :=
  optional (anyOf ['e', 'E'] * (sign * digits))

/-- `[+-]?(D+(.D*)?|.D+)([eE][+-]?D+)?`. -/
def numeral : RegularExpression Char :=
  sign * (significand * exponent)

def letters : RegularExpression Char → List Char
  | .zero | .epsilon => []
  | .char c => [c]
  | .plus p q | .comp p q => letters p ++ letters q
  | .star p => letters p

variable {text : List Char}

theorem mem_letters {p : RegularExpression Char} (h : text ∈ p.matches') :
    ∀ c ∈ text, c ∈ letters p := by
  induction p generalizing text with
  | zero => cases h
  | epsilon =>
    cases h
    exact nofun
  | char c =>
    cases h
    exact fun d hd => hd
  | plus p q ihp ihq =>
    intro c hc
    rcases h with h | h
    · exact List.mem_append_left _ (ihp h c hc)
    · exact List.mem_append_right _ (ihq h c hc)
  | comp p q ihp ihq =>
    obtain ⟨first, hfirst, second, hsecond, rfl⟩ := Language.mem_mul.1 h
    intro c hc
    rcases List.mem_append.1 hc with hc | hc
    · exact List.mem_append_left _ (ihp hfirst c hc)
    · exact List.mem_append_right _ (ihq hsecond c hc)
  | star p ih =>
    obtain ⟨words, rfl, hwords⟩ := Language.mem_kstar.1 h
    intro c hc
    obtain ⟨word, hword, hc⟩ := List.mem_flatten.1 hc
    exact ih (hwords word hword) c hc

theorem mem_anyOf {cs : List Char} : text ∈ (anyOf cs).matches' ↔ ∃ c ∈ cs, text = [c] := by
  induction cs with
  | nil => exact iff_of_false id nofun
  | cons c cs ih =>
    rw [List.exists_mem_cons_iff, ← ih]
    rfl

theorem mem_optional {r : RegularExpression Char} :
    text ∈ (optional r).matches' ↔ text = [] ∨ text ∈ r.matches' :=
  Iff.rfl

theorem mem_char_mul {c : Char} {r : RegularExpression Char} :
    text ∈ (char c * r).matches' ↔ ∃ rest ∈ r.matches', text = c :: rest := by
  rw [matches'_mul, Language.mem_mul]
  constructor
  · rintro ⟨_, rfl, rest, hrest, rfl⟩
    exact ⟨rest, hrest, rfl⟩
  · rintro ⟨rest, hrest, rfl⟩
    exact ⟨[c], rfl, rest, hrest, rfl⟩

theorem mem_digit : text ∈ digit.matches' ↔ ∃ c : Char, c.isDigit ∧ text = [c] := by
  rw [digit, mem_anyOf]
  simp only [← isDigit_iff_mem]

theorem mem_star_digit : text ∈ digit.star.matches' ↔ ∀ c ∈ text, c.isDigit := by
  rw [matches'_star, Language.mem_kstar]
  constructor
  · rintro ⟨words, rfl, hwords⟩ c hc
    obtain ⟨word, hword, hc⟩ := List.mem_flatten.1 hc
    obtain ⟨d, hd, rfl⟩ := mem_digit.1 (hwords word hword)
    rwa [List.mem_singleton.1 hc]
  · intro h
    refine ⟨text.map ([·]), (List.flatMap_singleton' text).symm, ?_⟩
    intro word hword
    obtain ⟨c, hc, rfl⟩ := List.mem_map.1 hword
    exact mem_digit.2 ⟨c, h c hc, rfl⟩

theorem mem_digits : text ∈ digits.matches' ↔ IsDigits text := by
  rw [digits, matches'_mul, Language.mem_mul]
  constructor
  · rintro ⟨first, hfirst, rest, hrest, rfl⟩
    obtain ⟨c, hc, rfl⟩ := mem_digit.1 hfirst
    exact ⟨nofun, List.forall_mem_cons.2 ⟨hc, mem_star_digit.1 hrest⟩⟩
  · rintro ⟨hne, hdigits⟩
    obtain ⟨c, rest, rfl⟩ := List.exists_cons_of_ne_nil hne
    obtain ⟨hc, hrest⟩ := List.forall_mem_cons.1 hdigits
    exact ⟨[c], mem_digit.2 ⟨c, hc, rfl⟩, rest, mem_star_digit.2 hrest, rfl⟩

theorem mem_sign : text ∈ sign.matches' ↔ text = [] ∨ text = ['+'] ∨ text = ['-'] := by
  rw [sign, mem_optional, mem_anyOf]
  simp

theorem mem_significand : text ∈ significand.matches' ↔
    IsDigits text ∨ ∃ whole fraction, text = whole ++ '.' :: fraction ∧
      IsDigits (whole ++ fraction) := by
  rw [significand, matches'_add, Language.mem_add, matches'_mul, Language.mem_mul, mem_char_mul]
  constructor
  · rintro (⟨whole, hwhole, tail, htail, rfl⟩ | ⟨fraction, hfraction, rfl⟩)
    · rw [mem_digits] at hwhole
      rcases mem_optional.1 htail with rfl | htail
      · rw [List.append_nil]
        exact .inl hwhole
      · obtain ⟨fraction, hfraction, rfl⟩ := mem_char_mul.1 htail
        refine .inr ⟨whole, fraction, rfl, List.append_ne_nil_of_left_ne_nil hwhole.1 _, ?_⟩
        exact List.forall_mem_append.2 ⟨hwhole.2, mem_star_digit.1 hfraction⟩
    · exact .inr ⟨[], fraction, rfl, mem_digits.1 hfraction⟩
  · rintro (h | ⟨whole, fraction, rfl, hne, hdigits⟩)
    · exact .inl ⟨text, mem_digits.2 h, [], .inl rfl, List.append_nil _⟩
    · obtain ⟨hwhole, hfraction⟩ := List.forall_mem_append.1 hdigits
      cases whole with
      | nil => exact .inr ⟨fraction, mem_digits.2 ⟨hne, hfraction⟩, rfl⟩
      | cons c whole =>
        refine .inl ⟨c :: whole, mem_digits.2 ⟨nofun, hwhole⟩, '.' :: fraction, ?_, rfl⟩
        exact mem_optional.2 (.inr (mem_char_mul.2 ⟨fraction, mem_star_digit.2 hfraction, rfl⟩))

theorem mem_exponent : text ∈ exponent.matches' ↔
    text = [] ∨ ∃ mark s ds, (mark = 'e' ∨ mark = 'E') ∧ s ∈ sign.matches' ∧ IsDigits ds ∧
      text = mark :: (s ++ ds) := by
  rw [exponent, mem_optional, matches'_mul, Language.mem_mul]
  apply or_congr_right
  constructor
  · rintro ⟨first, hfirst, tail, htail, rfl⟩
    obtain ⟨mark, hmark, rfl⟩ := mem_anyOf.1 hfirst
    obtain ⟨s, hs, ds, hds, rfl⟩ := Language.mem_mul.1 htail
    exact ⟨mark, s, ds, by simpa using hmark, hs, mem_digits.1 hds, rfl⟩
  · rintro ⟨mark, s, ds, hmark, hs, hds, rfl⟩
    refine ⟨[mark], mem_anyOf.2 ⟨mark, by simpa using hmark, rfl⟩, s ++ ds, ?_, rfl⟩
    exact Language.append_mem_mul hs (mem_digits.2 hds)

/-- An exponent starts with its mark, so no digit and no point before it belongs to it. -/
theorem head_of_exponent (h : text ∈ exponent.matches') :
    ∀ c ∈ text.head?, ¬ c.isDigit ∧ c ≠ '.' := by
  obtain rfl | ⟨mark, s, ds, rfl | rfl, -, -, rfl⟩ := mem_exponent.1 h
  · exact nofun
  · rintro c ⟨⟩
    decide
  · rintro c ⟨⟩
    decide

theorem ne_nil_of_significand (h : text ∈ significand.matches') : text ≠ [] := by
  obtain hds | ⟨whole, fraction, rfl, -⟩ := mem_significand.1 h
  · exact hds.1
  · simp

theorem not_isSign_of_significand (h : text ∈ significand.matches') : ∀ c ∈ text, ¬ isSign c := by
  have hall : (letters significand).all (!isSign ·) := by decide
  intro c hc
  simpa using List.all_eq_true.1 hall c (mem_letters h c hc)

theorem exists_isDigit (h : text ∈ numeral.matches') : ∃ c ∈ text, c.isDigit := by
  obtain ⟨s, -, tail, htail, rfl⟩ := Language.mem_mul.1 h
  obtain ⟨body, hbody, rest, -, rfl⟩ := Language.mem_mul.1 htail
  obtain hds | ⟨whole, fraction, rfl, hne, hdigits⟩ := mem_significand.1 hbody
  · obtain ⟨c, hc⟩ := List.exists_mem_of_ne_nil body hds.1
    exact ⟨c, by simp [hc], hds.2 c hc⟩
  · obtain ⟨c, hc⟩ := List.exists_mem_of_ne_nil _ hne
    refine ⟨c, ?_, hdigits c hc⟩
    rcases List.mem_append.1 hc with hc | hc
    · simp [hc]
    · simp [hc]

end Pattern

open Pattern

variable {text rest : List Char}

theorem exists_sign (text : List Char) : ∃ s ∈ sign.matches', text = s ++ (takeSign text).2 := by
  unfold takeSign
  split
  · exact ⟨['-'], mem_sign.2 (.inr (.inr rfl)), rfl⟩
  · exact ⟨['+'], mem_sign.2 (.inr (.inl rfl)), rfl⟩
  · exact ⟨[], mem_sign.2 (.inl rfl), rfl⟩

/-- What follows a sign keeps its first character, unless that is a sign too. -/
theorem takeSign_append {s : List Char} (hs : s ∈ sign.matches')
    (hrest : ∀ c ∈ rest.head?, ¬ isSign c) : (takeSign (s ++ rest)).2 = rest := by
  rcases mem_sign.1 hs with rfl | rfl | rfl
  · rw [List.nil_append]
    unfold takeSign
    split
    · exact absurd (hrest '-' rfl) (by decide)
    · exact absurd (hrest '+' rfl) (by decide)
    · rfl
  · rfl
  · rfl

theorem not_isSign_of_isDigit {c : Char} (h : c.isDigit) : ¬ isSign c := by
  have hall : decimalDigits.all (!isSign ·) := by decide
  simpa using all_digits hall h

theorem isSome_readExponent?_iff : (readExponent? text).isSome ↔ text ∈ exponent.matches' := by
  rw [mem_exponent]
  cases text with
  | nil => exact iff_of_true rfl (.inl rfl)
  | cons mark rest =>
    rw [readExponent?]
    simp only [Bool.and_eq_true, Bool.or_eq_true, beq_iff_eq, Bool.not_eq_true',
      List.isEmpty_eq_false_iff, List.all_eq_true, Option.isSome_ite, reduceCtorEq, false_or]
    constructor
    · rintro ⟨⟨hmark, hne⟩, hdigits⟩
      obtain ⟨s, hs, hrest⟩ := exists_sign rest
      exact ⟨mark, s, (takeSign rest).2, hmark, hs, ⟨hne, hdigits⟩, congrArg _ hrest⟩
    · rintro ⟨mark', s, ds, hmark, hs, hds, heq⟩
      obtain ⟨rfl, rfl⟩ := List.cons.inj heq
      have hhead : ∀ c ∈ ds.head?, ¬ isSign c := fun c hc =>
        not_isSign_of_isDigit (hds.2 c (List.mem_of_mem_head? hc))
      rw [takeSign_append hs hhead]
      exact ⟨⟨hmark, hds.1⟩, hds.2⟩

/--
As many digits as there are at the front of a text, with one point among them if there is one, and
what follows. There may be no digits at all.
-/
inductive Scans : (text digits rest : List Char) → Prop
  | whole {ds rest : List Char} (hds : ∀ c ∈ ds, c.isDigit)
    (hrest : ∀ c ∈ rest.head?, ¬ c.isDigit ∧ c ≠ '.') : Scans (ds ++ rest) ds rest
  | point {whole fraction rest : List Char} (hw : ∀ c ∈ whole, c.isDigit)
    (hf : ∀ c ∈ fraction, c.isDigit) (hrest : ∀ c ∈ rest.head?, ¬ c.isDigit) :
    Scans (whole ++ '.' :: (fraction ++ rest)) (whole ++ fraction) rest

theorem exists_scans (text : List Char) : ∃ ds rest, Scans text ds rest := by
  have hwhole : ∀ c ∈ text.takeWhile Char.isDigit, c.isDigit := fun c => List.mem_takeWhile_imp
  have hafter := fails_after_run Char.isDigit text
  rw [← List.takeWhile_append_dropWhile (p := Char.isDigit) (l := text)]
  generalize text.takeWhile Char.isDigit = whole at hwhole ⊢
  generalize text.dropWhile Char.isDigit = after at hafter ⊢
  by_cases hpoint : after.head? = some '.'
  · obtain ⟨more, rfl⟩ := List.head?_eq_some_iff.1 hpoint
    rw [← List.takeWhile_append_dropWhile (p := Char.isDigit) (l := more)]
    have hmore := fails_after_run Char.isDigit more
    exact ⟨_, _, .point hwhole (fun c => List.mem_takeWhile_imp) hmore⟩
  · refine ⟨whole, after, .whole hwhole fun c hc => ⟨hafter c hc, ?_⟩⟩
    rintro rfl
    exact hpoint hc

namespace Scans

variable {ds : List Char}

theorem significand (h : Scans text ds rest) (hne : ds ≠ []) :
    ∃ body ∈ significand.matches', text = body ++ rest := by
  cases h with
  | whole hds hrest => exact ⟨ds, mem_significand.2 (.inl ⟨hne, hds⟩), rfl⟩
  | @point whole fraction rest hw hf hrest =>
    have hdigits : IsDigits (whole ++ fraction) := ⟨hne, List.forall_mem_append.2 ⟨hw, hf⟩⟩
    exact ⟨whole ++ '.' :: fraction, mem_significand.2 (.inr ⟨whole, fraction, rfl, hdigits⟩),
      by simp⟩

theorem of_significand {body : List Char} (h : body ∈ Pattern.significand.matches')
    (hrest : ∀ c ∈ rest.head?, ¬ c.isDigit ∧ c ≠ '.') :
    ∃ ds, Scans (body ++ rest) ds rest ∧ ds ≠ [] := by
  obtain hds | ⟨whole, fraction, rfl, hne, hdigits⟩ := mem_significand.1 h
  · exact ⟨body, .whole hds.2 hrest, hds.1⟩
  · obtain ⟨hw, hf⟩ := List.forall_mem_append.1 hdigits
    rw [List.append_assoc, List.cons_append]
    exact ⟨whole ++ fraction, .point hw hf fun c hc => (hrest c hc).1, hne⟩

theorem reads (h : Scans (takeSign text).2 ds rest) :
    (readNumeral? text).isSome ↔ ds ≠ [] ∧ (readExponent? rest).isSome := by
  rw [readNumeral?]
  generalize takeSign text = signed at h ⊢
  obtain ⟨negative, body⟩ := signed
  dsimp only at h ⊢
  cases h with
  | whole hds hrest =>
    have hdigit : ∀ c ∈ rest.head?, ¬ c.isDigit := fun c hc => (hrest c hc).1
    rw [takeWhile_run hds hdigit, dropWhile_run hds hdigit]
    split
    · exact absurd rfl (hrest _ rfl).2
    · cases ds <;> simp
  | @point whole fraction rest hw hf hrest =>
    have hpoint : ∀ c ∈ ('.' :: (fraction ++ rest)).head?, ¬ c.isDigit := by
      rintro c ⟨⟩
      decide
    rw [takeWhile_run hw hpoint, dropWhile_run hw hpoint]
    simp only [takeWhile_run hf hrest, dropWhile_run hf hrest]
    cases whole <;> cases fraction <;> simp

end Scans

theorem isSome_readNumeral?_iff : (readNumeral? text).isSome ↔ text ∈ numeral.matches' := by
  rw [numeral, matches'_mul, Language.mem_mul]
  constructor
  · intro h
    obtain ⟨s, hs, htext⟩ := exists_sign text
    obtain ⟨ds, rest, hscan⟩ := exists_scans (takeSign text).2
    obtain ⟨hne, hrest⟩ := hscan.reads.1 h
    obtain ⟨body, hbody, hsplit⟩ := hscan.significand hne
    rw [hsplit] at htext
    exact ⟨s, hs, _, Language.append_mem_mul hbody (isSome_readExponent?_iff.1 hrest), htext.symm⟩
  · rintro ⟨s, hs, tail, htail, rfl⟩
    obtain ⟨body, hbody, rest, hrest, rfl⟩ := Language.mem_mul.1 htail
    obtain ⟨ds, hscan, hne⟩ := Scans.of_significand hbody (head_of_exponent hrest)
    have hhead : ∀ c ∈ (body ++ rest).head?, ¬ isSign c := by
      rw [List.head?_append_of_ne_nil body (ne_nil_of_significand hbody)]
      exact fun c hc => not_isSign_of_significand hbody c (List.mem_of_mem_head? hc)
    rw [← takeSign_append hs hhead] at hscan
    exact hscan.reads.2 ⟨hne, isSome_readExponent?_iff.2 hrest⟩

namespace Double

theorem isSome_ofNumeral?_iff : (ofNumeral? text).isSome ↔ text ∈ numeral.matches' := by
  rw [ofNumeral?, Option.isSome_map, isSome_readNumeral?_iff]

def words : List (List Char) :=
  ["inf".toList, "infinity".toList, "nan".toList]

theorem isSome_ofWord?_iff : (ofWord? text).isSome ↔
    ∃ s ∈ sign.matches', ∃ word ∈ words, text.map Char.toLower = s ++ word := by
  have hread : (ofWord? text).isSome ↔ (takeSign (text.map Char.toLower)).2 ∈ words := by
    rw [ofWord?]
    generalize takeSign (text.map Char.toLower) = signed
    obtain ⟨negative, word⟩ := signed
    simp only [words, List.mem_cons, List.not_mem_nil, or_false, ← or_assoc]
    split
    · next h => exact iff_of_true rfl (.inl h)
    · next h => rw [or_iff_right h, Option.isSome_ite]
  rw [hread]
  constructor
  · intro h
    obtain ⟨s, hs, htext⟩ := exists_sign (text.map Char.toLower)
    exact ⟨s, hs, _, h, htext⟩
  · rintro ⟨s, hs, word, hword, htext⟩
    have hall : words.all fun w => w.head?.all (!isSign ·) := by decide
    have hhead : ∀ c ∈ word.head?, ¬ isSign c := by
      simpa [Option.all_eq_true] using List.all_eq_true.1 hall word hword
    rw [htext, takeSign_append hs hhead]
    exact hword

end Double

end PageFlow
