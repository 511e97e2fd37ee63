import PageFlow.Template

namespace PageFlow

def Placeholder.text (p : Placeholder) : List Char :=
  p.literal ++ '$' :: '\x7b' :: p.path ++ ['\x7d']

/-- A text in pieces; the tail has no reference that is closed. -/
structure Template where
  parts : List Placeholder
  tail : List Char
deriving DecidableEq

namespace Template

def read (s : List Char) : Template :=
  match _h : first? s with
  | none => ⟨[], s⟩
  | some (p, rest) =>
    let t := read rest
    ⟨p :: t.parts, t.tail⟩
termination_by s.length
decreasing_by
  have := first?_length _h
  omega

def text (t : Template) : List Char :=
  t.parts.flatMap Placeholder.text ++ t.tail

def Marked (s : List Char) : Prop :=
  ['$', '\x7b'] <:+: s

/-- No reference is opened, or none is closed after the first marks. -/
def Unclosed (s : List Char) : Prop :=
  ¬ Marked s ∨ ∃ before after, s = before ++ '$' :: '\x7b' :: after ∧ ¬ Marked before ∧
    '\x7d' ∉ after

/-- The template spells the text, and each of its pieces ends as early as it can. -/
structure Decomposes (t : Template) (s : List Char) : Prop where
  text_eq : t.text = s
  literals : ∀ p ∈ t.parts, ¬ Marked p.literal
  paths : ∀ p ∈ t.parts, '\x7d' ∉ p.path
  unclosed : Unclosed t.tail

section

variable {s before after : List Char}

theorem not_marked_nil : ¬ Marked [] := by
  rintro ⟨before, after, h⟩
  simp at h

theorem marked_cons {c : Char} :
    Marked (c :: s) ↔ (c = '$' ∧ s.head? = some '\x7b') ∨ Marked s := by
  rw [Marked, List.infix_cons_iff, List.cons_prefix_cons, Marked]
  cases s with
  | nil => simp
  | cons d s =>
    rw [List.cons_prefix_cons]
    simp [eq_comm]

theorem splitOpen?_cons {c : Char} (h : ¬ (c = '$' ∧ s.head? = some '\x7b')) :
    splitOpen? (c :: s) = (splitOpen? s).map fun (before, after) => (c :: before, after) := by
  rw [splitOpen?.eq_def]
  split
  · cases ‹_ = _›
  · next heq =>
    cases heq
    exact absurd ⟨rfl, rfl⟩ h
  · next heq =>
    cases heq
    rfl

theorem splitOpen?_append (h : ¬ Marked before) :
    splitOpen? (before ++ '$' :: '\x7b' :: after) = some (before, after) := by
  induction before with
  | nil => rfl
  | cons c before ih =>
    rw [marked_cons, not_or] at h
    rw [List.cons_append, splitOpen?_cons, ih h.2]
    · rfl
    · intro hopen
      -- a dollar sign at the end of the literal is followed by that of the marks
      cases before with
      | nil => simp at hopen
      | cons d before => exact h.1 hopen

theorem splitOpen?_eq_none : splitOpen? s = none ↔ ¬ Marked s := by
  induction s with
  | nil => exact ⟨fun _ => not_marked_nil, fun _ => rfl⟩
  | cons c s ih =>
    by_cases hopen : c = '$' ∧ s.head? = some '\x7b'
    · obtain ⟨rfl, hhead⟩ := hopen
      obtain ⟨rest, rfl⟩ := List.head?_eq_some_iff.1 hhead
      simp [splitOpen?, marked_cons]
    · rw [splitOpen?_cons hopen, Option.map_eq_none_iff, ih, marked_cons, or_iff_right hopen]

theorem splitOpen?_eq_some :
    splitOpen? s = some (before, after) ↔
      s = before ++ '$' :: '\x7b' :: after ∧ ¬ Marked before := by
  constructor
  · intro h
    induction s generalizing before with
    | nil => cases h
    | cons c s ih =>
      by_cases hopen : c = '$' ∧ s.head? = some '\x7b'
      · obtain ⟨rfl, hhead⟩ := hopen
        obtain ⟨rest, rfl⟩ := List.head?_eq_some_iff.1 hhead
        cases h
        exact ⟨rfl, not_marked_nil⟩
      · rw [splitOpen?_cons hopen] at h
        obtain ⟨⟨b, a⟩, hrest, heq⟩ := Option.map_eq_some_iff.1 h
        cases heq
        obtain ⟨rfl, hb⟩ := ih hrest
        refine ⟨rfl, ?_⟩
        rw [marked_cons, not_or]
        refine ⟨?_, hb⟩
        rintro ⟨rfl, hhead⟩
        obtain ⟨rest, rfl⟩ := List.head?_eq_some_iff.1 hhead
        exact hopen ⟨rfl, rfl⟩
  · rintro ⟨rfl, h⟩
    exact splitOpen?_append h

theorem splitClose?_eq_none : splitClose? s = none ↔ '\x7d' ∉ s := by
  induction s with
  | nil => simp [splitClose?]
  | cons c s ih =>
    rw [splitClose?, List.mem_cons, not_or]
    split
    · next hc => simp [hc]
    · next hc => simp [ih, Ne.symm hc]

theorem splitClose?_append (h : '\x7d' ∉ before) :
    splitClose? (before ++ '\x7d' :: after) = some (before, after) := by
  induction before with
  | nil => rfl
  | cons c before ih =>
    rw [List.mem_cons, not_or] at h
    rw [List.cons_append, splitClose?, if_neg (Ne.symm h.1), ih h.2]
    rfl

theorem splitClose?_eq_some :
    splitClose? s = some (before, after) ↔ s = before ++ '\x7d' :: after ∧ '\x7d' ∉ before := by
  constructor
  · intro h
    induction s generalizing before with
    | nil => cases h
    | cons c s ih =>
      rw [splitClose?] at h
      split at h
      · next hc =>
        subst hc
        cases h
        exact ⟨rfl, List.not_mem_nil⟩
      · next hc =>
        obtain ⟨⟨b, a⟩, hrest, heq⟩ := Option.map_eq_some_iff.1 h
        cases heq
        obtain ⟨rfl, hb⟩ := ih hrest
        exact ⟨rfl, by simpa [Ne.symm hc] using hb⟩
  · rintro ⟨rfl, h⟩
    exact splitClose?_append h

end

variable {s rest : List Char} {p : Placeholder} {t : Template} {parts : List Placeholder}
  {tail : List Char}

theorem first?_eq_some : first? s = some (p, rest) ↔
    s = p.text ++ rest ∧ ¬ Marked p.literal ∧ '\x7d' ∉ p.path := by
  constructor
  · intro h
    unfold first? at h
    split at h
    · cases h
    · next literal afterOpen hopen =>
      obtain ⟨⟨path, after⟩, hclose, heq⟩ := Option.map_eq_some_iff.1 h
      cases heq
      obtain ⟨rfl, hliteral⟩ := splitOpen?_eq_some.1 hopen
      obtain ⟨rfl, hpath⟩ := splitClose?_eq_some.1 hclose
      exact ⟨by simp [Placeholder.text], hliteral, hpath⟩
  · rintro ⟨rfl, hliteral, hpath⟩
    have hopen : splitOpen? (p.text ++ rest) = some (p.literal, p.path ++ '\x7d' :: rest) :=
      splitOpen?_eq_some.2 ⟨by simp [Placeholder.text], hliteral⟩
    rw [first?, hopen]
    simp only [splitClose?_append hpath]
    rfl

theorem first?_eq_none : first? s = none ↔ Unclosed s := by
  constructor
  · intro h
    unfold first? at h
    split at h
    · next hopen => exact .inl (splitOpen?_eq_none.1 hopen)
    · next before after hopen =>
      obtain ⟨heq, hbefore⟩ := splitOpen?_eq_some.1 hopen
      exact .inr ⟨before, after, heq, hbefore, splitClose?_eq_none.1 (Option.map_eq_none_iff.1 h)⟩
  · rintro (h | ⟨before, after, rfl, hbefore, hafter⟩)
    · rw [first?, splitOpen?_eq_none.2 h]
    · rw [first?, splitOpen?_append hbefore]
      simp only [splitClose?_eq_none.2 hafter]
      rfl

theorem read_of_none (h : first? s = none) : read s = ⟨[], s⟩ := by
  rw [read]
  split
  · rfl
  · next hsome => cases h.symm.trans hsome

theorem read_of_some (h : first? s = some (p, rest)) :
    read s = ⟨p :: (read rest).parts, (read rest).tail⟩ := by
  rw [read]
  split
  · next hnone => cases h.symm.trans hnone
  · next hsome =>
    cases h.symm.trans hsome
    rfl

theorem text_cons : text ⟨p :: parts, tail⟩ = p.text ++ text ⟨parts, tail⟩ :=
  List.append_assoc ..

theorem decomposes_nil : Decomposes ⟨[], tail⟩ s ↔ tail = s ∧ Unclosed s := by
  constructor
  · rintro ⟨rfl, -, -, h⟩
    exact ⟨rfl, h⟩
  · rintro ⟨rfl, h⟩
    exact ⟨rfl, by simp, by simp, h⟩

theorem decomposes_cons : Decomposes ⟨p :: parts, tail⟩ s ↔
    ∃ rest, first? s = some (p, rest) ∧ Decomposes ⟨parts, tail⟩ rest := by
  constructor
  · rintro ⟨rfl, hliterals, hpaths, h⟩
    have hliteral := List.forall_mem_cons.1 hliterals
    have hpath := List.forall_mem_cons.1 hpaths
    exact ⟨text ⟨parts, tail⟩, first?_eq_some.2 ⟨text_cons, hliteral.1, hpath.1⟩,
      rfl, hliteral.2, hpath.2, h⟩
  · rintro ⟨rest, hfirst, rfl, hliterals, hpaths, h⟩
    obtain ⟨rfl, hliteral, hpath⟩ := first?_eq_some.1 hfirst
    exact ⟨text_cons, List.forall_mem_cons.2 ⟨hliteral, hliterals⟩,
      List.forall_mem_cons.2 ⟨hpath, hpaths⟩, h⟩

theorem decomposes_read (s : List Char) : (read s).Decomposes s := by
  fun_induction read s with
  | case1 s h => exact decomposes_nil.2 ⟨rfl, first?_eq_none.1 h⟩
  | case2 s p rest h t ih => exact decomposes_cons.2 ⟨rest, h, ih⟩

theorem decomposes_iff : t.Decomposes s ↔ t = read s := by
  constructor
  · intro h
    obtain ⟨parts, tail⟩ := t
    induction parts generalizing s with
    | nil =>
      obtain ⟨rfl, hunclosed⟩ := decomposes_nil.1 h
      rw [read_of_none (first?_eq_none.2 hunclosed)]
    | cons p parts ih =>
      obtain ⟨rest, hfirst, hrest⟩ := decomposes_cons.1 h
      rw [read_of_some hfirst, ← ih hrest]
  · rintro rfl
    exact decomposes_read s

end Template

end PageFlow
