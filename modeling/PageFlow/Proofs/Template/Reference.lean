import Mathlib.Data.List.DropRight
import PageFlow.Proofs.Template.Substitution

namespace PageFlow

namespace Text

def leading (s : List Char) : List Char :=
  s.takeWhile isBlank

def trailing (s : List Char) : List Char :=
  s.rtakeWhile isBlank

theorem trimEnd_eq (s : List Char) : trimEnd s = s.rdropWhile isBlank := rfl

theorem trim_eq_nil {s : List Char} : trim s = [] ↔ ∀ c ∈ s, isBlank c := by
  rw [trim, trimEnd_eq, List.rdropWhile_eq_nil_iff, trimStart]
  constructor
  · intro h
    have hall : ∀ c ∈ s.takeWhile isBlank ++ s.dropWhile isBlank, isBlank c := by
      rw [List.forall_mem_append]
      exact ⟨fun c hc => List.mem_takeWhile_imp hc, h⟩
    rwa [List.takeWhile_append_dropWhile] at hall
  · intro h c hc
    exact h c ((List.dropWhile_sublist _).subset hc)

theorem exists_trim (s : List Char) : ∃ after, s = leading s ++ trim s ++ after ∧
    ∀ c ∈ after, isBlank c := by
  refine ⟨(trimStart s).rtakeWhile isBlank, ?_, fun c hc => List.mem_rtakeWhile_imp hc⟩
  calc s
    _ = leading s ++ trimStart s := List.takeWhile_append_dropWhile.symm
    _ = leading s ++ (trim s ++ (trimStart s).rtakeWhile isBlank) := by
      rw [trim, trimEnd_eq, List.rdropWhile_append_rtakeWhile]
    _ = leading s ++ trim s ++ (trimStart s).rtakeWhile isBlank := (List.append_assoc ..).symm

structure Trims (s core : List Char) : Prop where
  framed : ∃ before after, s = before ++ core ++ after ∧ (∀ c ∈ before, isBlank c) ∧
    ∀ c ∈ after, isBlank c
  head : ∀ c ∈ core.head?, ¬ isBlank c
  last : ∀ c ∈ core.getLast?, ¬ isBlank c

theorem trims_trim (s : List Char) : Trims s (trim s) where
  framed := by
    obtain ⟨after, h, hafter⟩ := exists_trim s
    exact ⟨leading s, after, h, fun c => List.mem_takeWhile_imp, hafter⟩
  head := by
    intro c hc
    obtain ⟨rest, htrim⟩ := List.head?_eq_some_iff.1 hc
    obtain ⟨after, hstart⟩ := List.rdropWhile_prefix isBlank (l := trimStart s)
    rw [← trimEnd_eq, ← trim, htrim] at hstart
    have hnot := fails_after_run isBlank s
    rw [← trimStart, ← hstart] at hnot
    exact hnot c rfl
  last := by
    intro c hc
    obtain ⟨hne, rfl⟩ := List.mem_getLast?_eq_getLast hc
    exact List.rdropWhile_last_not isBlank (trimStart s) hne

section

variable {before middle after : List Char} {first last : Char}

theorem leading_framed (hb : ∀ c ∈ before, isBlank c) (hf : ¬ isBlank first) :
    leading (before ++ first :: after) = before := by
  rw [leading, List.takeWhile_append_of_pos hb, List.takeWhile_cons_of_neg hf, List.append_nil]

theorem trailing_framed (ha : ∀ c ∈ after, isBlank c) (hl : ¬ isBlank last) :
    trailing (before ++ last :: after) = after := by
  have hreverse : ∀ c ∈ after.reverse, isBlank c := by simpa using ha
  rw [trailing, List.rtakeWhile, List.reverse_append, List.reverse_cons, List.append_assoc,
    List.takeWhile_append_of_pos hreverse, List.singleton_append, List.takeWhile_cons_of_neg hl]
  simp

theorem trim_framed (hb : ∀ c ∈ before, isBlank c) (hf : ¬ isBlank first) (hl : ¬ isBlank last)
    (ha : ∀ c ∈ after, isBlank c) :
    trim (before ++ first :: middle ++ last :: after) = first :: middle ++ [last] := by
  have hreverse : ∀ c ∈ after.reverse, isBlank c := by simpa using ha
  rw [trim, trimStart, List.append_assoc, List.dropWhile_append_of_pos hb, List.cons_append,
    List.dropWhile_cons_of_neg hf, trimEnd, ← List.cons_append, List.reverse_append,
    List.reverse_cons, List.append_assoc, List.dropWhile_append_of_pos hreverse,
    List.singleton_append, List.dropWhile_cons_of_neg hl]
  simp

end

end Text

namespace Template

/-- A reference that opens no other one, with nothing but white space around it. -/
structure Sole (p : Placeholder) (tail : List Char) : Prop where
  literal : ∀ c ∈ p.literal, Text.isBlank c
  unmarked : ¬ Marked p.path
  tail : ∀ c ∈ tail, Text.isBlank c

variable {s inner : List Char} {p : Placeholder} {tail : List Char}

theorem not_marked_of_blank (h : ∀ c ∈ s, Text.isBlank c) : ¬ Marked s := by
  intro hmarked
  have hblank := h '$' (hmarked.subset (by simp))
  exact absurd hblank (by decide)

theorem soleReference?_eq_some : soleReference? s = some inner ↔
    Text.trim s = '$' :: '\x7b' :: inner ++ ['\x7d'] ∧ ¬ Marked inner ∧ '\x7d' ∉ inner := by
  constructor
  · intro h
    unfold soleReference? at h
    split at h
    · next rest htrim =>
      split at h
      · next hlast =>
        obtain ⟨content, rfl⟩ := List.getLast?_eq_some_iff.1 hlast
        simp only [List.dropLast_concat] at h
        split at h
        · cases h
        · next hplain =>
          cases h
          simp only [Bool.or_eq_true, not_or, List.contains_iff_mem] at hplain
          rw [Bool.not_eq_true, Option.isSome_eq_false_iff, Option.isNone_iff_eq_none,
            splitOpen?_eq_none] at hplain
          exact ⟨htrim, hplain⟩
      · cases h
    · cases h
  · rintro ⟨htrim, hmarked, hclose⟩
    rw [soleReference?, htrim]
    simp [splitOpen?_eq_none.2 hmarked, hclose]

theorem pureReference?_eq_some {source path : String} : pureReference? source = some path ↔
    ∃ inner, soleReference? source.toList = some inner ∧ (¬ ∀ c ∈ inner, Text.isBlank c) ∧
      path = String.ofList (Text.trim inner) := by
  rw [pureReference?]
  cases soleReference? source.toList with
  | none => simp
  | some inner =>
    simp only [Option.map_some, Option.some.injEq, exists_eq_left']
    rw [← Text.trim_eq_nil]
    cases Text.trim inner with
    | nil => simp
    | cons c rest => simp [eq_comm]

theorem pureReference?_written {path : List Char} (hopen : ¬ Marked path) (hclose : '\x7d' ∉ path)
    (hblank : ¬ ∀ c ∈ path, Text.isBlank c) :
    pureReference? (String.ofList ('$' :: '\x7b' :: path ++ ['\x7d'])) =
      some (String.ofList (Text.trim path)) := by
  have htrim : Text.trim ('$' :: '\x7b' :: path ++ ['\x7d']) = '$' :: '\x7b' :: path ++ ['\x7d'] :=
    @Text.trim_framed [] ('\x7b' :: path) [] '$' '\x7d' nofun (by decide) (by decide) nofun
  apply pureReference?_eq_some.2
  refine ⟨path, ?_, hblank, rfl⟩
  rw [String.toList_ofList]
  exact soleReference?_eq_some.2 ⟨htrim, hopen, hclose⟩

theorem decomposes_one : Decomposes ⟨[p], tail⟩ s ↔
    s = p.text ++ tail ∧ ¬ Marked p.literal ∧ '\x7d' ∉ p.path ∧ Unclosed tail := by
  rw [decomposes_cons]
  simp [first?_eq_some, decomposes_nil, and_assoc]

namespace Sole

theorem leading_eq (h : Sole p tail) : Text.leading (p.text ++ tail) = p.literal := by
  rw [Placeholder.text_append, List.append_assoc]
  exact Text.leading_framed h.literal (by decide)

theorem trailing_eq (h : Sole p tail) : Text.trailing (p.text ++ tail) = tail := by
  rw [Placeholder.text_append]
  exact Text.trailing_framed h.tail (by decide)

end Sole

theorem soleReference?_iff : soleReference? s = some inner ↔
    ∃ p tail, Decomposes ⟨[p], tail⟩ s ∧ Sole p tail ∧ p.path = inner := by
  rw [soleReference?_eq_some]
  constructor
  · rintro ⟨htrim, hmarked, hclose⟩
    obtain ⟨after, hs, hafter⟩ := Text.exists_trim s
    rw [htrim] at hs
    have hleading : ∀ c ∈ Text.leading s, Text.isBlank c := fun c hc => List.mem_takeWhile_imp hc
    refine ⟨⟨Text.leading s, inner⟩, after, decomposes_one.2 ⟨?_, not_marked_of_blank hleading,
      hclose, .inl (not_marked_of_blank hafter)⟩, ⟨hleading, hmarked, hafter⟩, rfl⟩
    simpa [Placeholder.text] using hs
  · rintro ⟨p, tail, hdecomposes, hsole, rfl⟩
    obtain ⟨rfl, -, hclose, -⟩ := decomposes_one.1 hdecomposes
    refine ⟨?_, hsole.unmarked, hclose⟩
    rw [Placeholder.text_append]
    exact Text.trim_framed hsole.literal (by decide) (by decide) hsole.tail

theorem pureReference?_iff {source path : String} : pureReference? source = some path ↔
    ∃ p tail, Decomposes ⟨[p], tail⟩ source.toList ∧ Sole p tail ∧
      (¬ ∀ c ∈ p.path, Text.isBlank c) ∧ path = String.ofList (Text.trim p.path) := by
  rw [pureReference?_eq_some]
  constructor
  · rintro ⟨inner, hinner, hblank, hpath⟩
    obtain ⟨p, tail, hdecomposes, hsole, rfl⟩ := soleReference?_iff.1 hinner
    exact ⟨p, tail, hdecomposes, hsole, hblank, hpath⟩
  · rintro ⟨p, tail, hdecomposes, hsole, hblank, hpath⟩
    exact ⟨p.path, soleReference?_iff.2 ⟨p, tail, hdecomposes, hsole, rfl⟩, hblank, hpath⟩

section

variable {vars : Variables} {source : String}

theorem resolvePure_of_none (h : pureReference? source = none) :
    resolvePure vars source = .ok none := by
  rw [resolvePure, h]

theorem resolvePure_one (h : Decomposes ⟨[p], tail⟩ source.toList) (hsole : Sole p tail)
    (hblank : ¬ ∀ c ∈ p.path, Text.isBlank c) :
    resolvePure vars source =
      match p.value vars with
      | .ok value => .ok (some value)
      | .error fault => .error ⟨⟨.path fault, p.literal.length⟩, source⟩ := by
  obtain ⟨htext, -, -, -⟩ := decomposes_one.1 h
  have hleading : source.toList.takeWhile Text.isBlank = p.literal := htext ▸ hsole.leading_eq
  rw [resolvePure, pureReference?_iff.2 ⟨p, tail, h, hsole, hblank, rfl⟩, hleading]
  simp only [Placeholder.value]
  cases Path.resolve (String.ofList (Text.trim p.path)) vars with
  | ok value => rfl
  | error fault => rfl

theorem interpolate_one (h : Decomposes ⟨[p], tail⟩ source.toList) :
    interpolate vars source =
      match p.value vars with
      | .ok value => .ok (String.ofList (p.literal ++ value.display.toList ++ tail))
      | .error fault => .error ⟨⟨.path fault, p.literal.length⟩, source⟩ := by
  cases hp : p.value vars with
  | ok value =>
    have hvalues : HaveValues vars [p] [value] := .cons hp .nil
    rw [interpolate_filled h hvalues]
    simp [fill]
  | error fault =>
    have hvalues : HaveValues vars [] [] := .nil
    exact interpolate_failed h hvalues hp

end

end Template

/--
The decomposition of a text shows whether it is one reference, and then the value that keeps its
kind is the one that is spliced: its text stands between the same white space, or the same error is
reported.
-/
theorem resolvePure_agrees (vars : Variables) (source : String) :
    (∀ path, pureReference? source = some path ↔
      ∃ p tail, Template.Decomposes ⟨[p], tail⟩ source.toList ∧ Template.Sole p tail ∧
        (¬ ∀ c ∈ p.path, Text.isBlank c) ∧ path = String.ofList (Text.trim p.path)) ∧
      match pureReference? source, resolvePure vars source with
      | none, result => result = .ok none
      | some _, .ok none => False
      | some _, .ok (some value) =>
        interpolate vars source = .ok (String.ofList (Text.leading source.toList ++
          value.display.toList ++ Text.trailing source.toList))
      | some _, .error e => interpolate vars source = .error e := by
  refine ⟨fun path => Template.pureReference?_iff, ?_⟩
  cases hpure : pureReference? source with
  | none => exact Template.resolvePure_of_none hpure
  | some path =>
    obtain ⟨p, tail, hdecomposes, hsole, hblank, -⟩ := Template.pureReference?_iff.1 hpure
    obtain ⟨htext, -, -, -⟩ := Template.decomposes_one.1 hdecomposes
    rw [Template.resolvePure_one hdecomposes hsole hblank, Template.interpolate_one hdecomposes,
      htext, hsole.leading_eq, hsole.trailing_eq]
    cases p.value vars with
    | ok value => rfl
    | error fault => rfl

end PageFlow
