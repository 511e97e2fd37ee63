import Mathlib.Data.List.Forall2
import PageFlow.Proofs.Template.Decomposition

namespace PageFlow

namespace Text

theorem byteLength_append (s t : List Char) :
    byteLength (s ++ t) = byteLength s + byteLength t := by
  induction s with
  | nil => exact (Nat.zero_add _).symm
  | cons c s ih => rw [List.cons_append, byteLength, byteLength, ih, Nat.add_assoc]

/-- The bytes of a first part end between two characters. -/
theorem charOffset_byteLength (before after : List Char) :
    charOffset (before ++ after) (byteLength before) = before.length := by
  induction before with
  | nil => cases after <;> rfl
  | cons c before ih =>
    have hne : c.utf8Size + byteLength before ≠ 0 := by
      have hpos := c.utf8Size_pos
      omega
    rw [List.cons_append, byteLength, charOffset, if_neg hne, Nat.add_sub_cancel_left, ih]
    rfl

end Text

namespace Placeholder

theorem text_append (p : Placeholder) (tail : List Char) :
    p.text ++ tail = p.literal ++ '$' :: ('\x7b' :: p.path) ++ '\x7d' :: tail := by
  simp [text]

theorem byteLength_text (p : Placeholder) :
    Text.byteLength p.text = Text.byteLength p.literal + 2 + Text.byteLength p.path + 1 := by
  have hopen : Text.byteLength ('$' :: '\x7b' :: p.path) = 1 + (1 + Text.byteLength p.path) := rfl
  have hclose : Text.byteLength ['\x7d'] = 1 := rfl
  rw [text, Text.byteLength_append, Text.byteLength_append, hopen, hclose]
  omega

end Placeholder

/-- The value at the path between the braces, white space around it aside. -/
def Placeholder.value (p : Placeholder) (vars : Variables) : Except PathFault Value :=
  Path.resolve (String.ofList (Text.trim p.path)) vars

namespace Template

def fill (t : Template) (values : List Value) : List Char :=
  (List.zipWith (fun p value => p.literal ++ value.display.toList) t.parts values).flatten ++ t.tail

def HaveValues (vars : Variables) : List Placeholder → List Value → Prop :=
  List.Forall₂ fun p value => p.value vars = .ok value

/-- What becomes of a template that a source decomposes into. -/
inductive Substitutes (vars : Variables) (source : String) (t : Template) :
    Except ExprError String → Prop
  | filled {values : List Value} (h : HaveValues vars t.parts values) :
    Substitutes vars source t (.ok (String.ofList (t.fill values)))
  | failed {before after : List Placeholder} {p : Placeholder} {values : List Value}
    {fault : PathFault} (hparts : t.parts = before ++ p :: after)
    (hbefore : HaveValues vars before values) (hp : p.value vars = .error fault) :
    Substitutes vars source t (.error
      { fault := .path fault, offset := (text ⟨before, p.literal⟩).length, source })

section

variable {vars : Variables} {source out rest after tail : List Char} {consumed : Nat}
  {p : Placeholder} {parts others : List Placeholder} {values : List Value} {value : Value}
  {fault : PathFault}

theorem splice_value (h : first? rest = some (p, after)) (hp : p.value vars = .ok value) :
    splice vars source out rest consumed =
      splice vars source (out ++ (p.literal ++ value.display.toList)) after
        (consumed + Text.byteLength p.text) := by
  rw [Placeholder.value] at hp
  rw [splice]
  split
  · next hnone => cases hnone.symm.trans h
  · next hsome =>
    cases h.symm.trans hsome
    rw [hp, Placeholder.byteLength_text, ← List.append_assoc]
    rfl

theorem splice_fault (h : first? rest = some (p, after)) (hp : p.value vars = .error fault) :
    splice vars source out rest consumed =
      .error ⟨.path fault, Text.charOffset source (consumed + Text.byteLength p.literal)⟩ := by
  rw [Placeholder.value] at hp
  rw [splice]
  split
  · next hnone => cases hnone.symm.trans h
  · next hsome =>
    cases h.symm.trans hsome
    rw [hp]
    rfl

theorem splice_filled (h : HaveValues vars parts values) (hrest : Decomposes ⟨parts, tail⟩ rest) :
    splice vars source out rest consumed = .ok (out ++ fill ⟨parts, tail⟩ values) := by
  induction h generalizing out rest consumed with
  | nil =>
    obtain ⟨rfl, hunclosed⟩ := decomposes_nil.1 hrest
    exact splice_of_none (first?_eq_none.2 hunclosed) vars consumed
  | cons hp _ ih =>
    obtain ⟨after, hfirst, hafter⟩ := decomposes_cons.1 hrest
    rw [splice_value hfirst hp, ih hafter]
    simp [fill]

/-- What stands before the rest counts by its bytes on the way and by its characters in the end. -/
theorem splice_failed (h : HaveValues vars parts values) (hp : p.value vars = .error fault)
    (hrest : Decomposes ⟨parts ++ p :: others, tail⟩ rest) (before : List Char) :
    splice vars (before ++ rest) out rest (Text.byteLength before) =
      .error ⟨.path fault, before.length + (text ⟨parts, p.literal⟩).length⟩ := by
  -- what stands before the rest grows by the text of each reference that has a value
  induction h generalizing before out rest with
  | nil =>
    obtain ⟨after, hfirst, -⟩ := decomposes_cons.1 hrest
    obtain ⟨rfl, -, -⟩ := first?_eq_some.1 hfirst
    rw [splice_fault hfirst hp, Placeholder.text_append, List.append_assoc, ← List.append_assoc,
      ← Text.byteLength_append, Text.charOffset_byteLength, List.length_append]
    rfl
  | cons hq _ ih =>
    obtain ⟨after, hfirst, hafter⟩ := decomposes_cons.1 hrest
    obtain ⟨rfl, -, -⟩ := first?_eq_some.1 hfirst
    rw [splice_value hfirst hq, ← Text.byteLength_append, ← List.append_assoc, ih hafter, text_cons,
      List.length_append, List.length_append, Nat.add_assoc]

theorem haveValues_or_fails (vars : Variables) (parts : List Placeholder) :
    (∃ values, HaveValues vars parts values) ∨ ∃ before p after values fault,
      parts = before ++ p :: after ∧ HaveValues vars before values ∧
        p.value vars = .error fault := by
  induction parts with
  | nil => exact .inl ⟨[], .nil⟩
  | cons p parts ih =>
    cases hp : p.value vars with
    | error fault => exact .inr ⟨[], p, parts, [], fault, rfl, .nil, hp⟩
    | ok value =>
      rcases ih with ⟨values, h⟩ | ⟨before, q, after, values, fault, rfl, hbefore, hq⟩
      · exact .inl ⟨value :: values, .cons hp h⟩
      · exact .inr ⟨p :: before, q, after, value :: values, fault, rfl, .cons hp hbefore, hq⟩

end

section

variable {vars : Variables} {source : String} {t : Template} {parts others : List Placeholder}
  {p : Placeholder} {tail : List Char} {values : List Value} {fault : PathFault}

/-- The search for the first marks changes nothing. -/
theorem interpolate_eq (vars : Variables) (source : String) : interpolate vars source =
    match splice vars source.toList [] source.toList 0 with
    | .error flaw => .error (flaw.within source)
    | .ok chars => .ok (String.ofList chars) := by
  rw [interpolate]
  split
  · next hopen =>
    have hfirst : first? source.toList = none :=
      first?_eq_none.2 (.inl (splitOpen?_eq_none.1 (Option.isNone_iff_eq_none.1 hopen)))
    rw [splice_of_none hfirst]
    exact congrArg _ String.ofList_toList.symm
  · rfl

theorem interpolate_filled (h : t.Decomposes source.toList)
    (hvalues : HaveValues vars t.parts values) :
    interpolate vars source = .ok (String.ofList (t.fill values)) := by
  rw [interpolate_eq, splice_filled hvalues h]
  rfl

theorem interpolate_failed (h : Decomposes ⟨parts ++ p :: others, tail⟩ source.toList)
    (hvalues : HaveValues vars parts values) (hp : p.value vars = .error fault) :
    interpolate vars source =
      .error { fault := .path fault, offset := (text ⟨parts, p.literal⟩).length, source } := by
  have hsplice : splice vars source.toList [] source.toList 0 =
      .error ⟨.path fault, 0 + (text ⟨parts, p.literal⟩).length⟩ :=
    splice_failed hvalues hp h []
  rw [interpolate_eq, hsplice, Nat.zero_add]
  rfl

theorem substitutes_of_decomposes (vars : Variables) (h : t.Decomposes source.toList) :
    t.Substitutes vars source (interpolate vars source) := by
  rcases haveValues_or_fails vars t.parts with
    ⟨values, hvalues⟩ | ⟨before, p, after, values, fault, hparts, hbefore, hp⟩
  · rw [interpolate_filled h hvalues]
    exact .filled hvalues
  · obtain ⟨parts, tail⟩ := t
    obtain rfl : parts = before ++ p :: after := hparts
    rw [interpolate_failed h hbefore hp]
    exact .failed rfl hbefore hp

end

end Template

/--
A text has one decomposition, and interpolation puts the values of its references in their places.
Where a reference has none, the first such one is reported, at its place in the text.
-/
theorem interpolate_substitutes (vars : Variables) (source : String) : ∃ t : Template,
    (∀ t', t'.Decomposes source.toList ↔ t' = t) ∧
      t.Substitutes vars source (interpolate vars source) ∧
        (Template.Marked source.toList ∨ interpolate vars source = .ok source) := by
  refine ⟨Template.read source.toList, fun t' => Template.decomposes_iff,
    Template.substitutes_of_decomposes vars (Template.decomposes_read _), ?_⟩
  by_cases h : Template.Marked source.toList
  · exact .inl h
  · exact .inr (interpolate_of_none (Template.first?_eq_none.2 (.inl h)) vars)

end PageFlow
