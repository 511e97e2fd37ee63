import PageFlow.Cli.Command

namespace PageFlow.Cli

def FirstWith (p : Action → Prop) (actions : List Action) (a : Action) : Prop :=
  p a ∧ ∃ before after, actions = before ++ a :: after ∧ ∀ b ∈ before, ¬ p b

/-- An action of a name space has the name as its bare name, and none before it has it in full. -/
inductive Shadowed (name : String) : List Action → Prop where
  | here {a : Action} {rest : List Action} (bare : a.name = name) (space : a.space ≠ "") :
      Shadowed name (a :: rest)
  | later {a : Action} {rest : List Action} (other : a.fullName ≠ name)
      (shadowed : Shadowed name rest) : Shadowed name (a :: rest)

section

variable {actions rest : List Action} {name : String} {a : Action}

theorem fullName_eq_bare (h : a.name = name) : a.fullName = name ↔ a.space = "" := by
  subst h
  rw [Action.fullName, qualify]
  constructor
  · intro hfull
    split at hfull
    · assumption
    · have hlength := congrArg String.length hfull
      simp only [String.length_append] at hlength
      have hcolon : ":".length = 1 := rfl
      omega
  · exact fun hspace => if_pos hspace

theorem selectAction?_cons_of_pos (h : a.fullName = name ∨ a.name = name) :
    selectAction? (a :: rest) name = some a :=
  List.find?_cons_of_pos (by simpa using h)

theorem selectAction?_cons_of_neg (hfull : a.fullName ≠ name) (hbare : a.name ≠ name) :
    selectAction? (a :: rest) name = selectAction? rest name :=
  List.find?_cons_of_neg (by simp [hfull, hbare])

theorem find?_eq_some_iff_first {p : Action → Prop} [DecidablePred p] :
    actions.find? p = some a ↔ FirstWith p actions a := by
  simp [FirstWith, List.find?_eq_some_iff_append]

theorem FirstWith.mem {p : Action → Prop} (h : FirstWith p actions a) : a ∈ actions := by
  obtain ⟨-, before, after, rfl, -⟩ := h
  simp

theorem selectAction?_cons_of_bare (h : a.name = name) :
    selectAction? (a :: rest) name = (a :: rest).find? (·.name = name) := by
  rw [selectAction?_cons_of_pos (.inr h), List.find?_cons_of_pos (by simpa using h)]

/-- Behind an action that has another full name, the bare name decides if it decides on the rest. -/
theorem selectAction?_cons_bare (hfull : a.fullName ≠ name)
    (h : selectAction? rest name = rest.find? (·.name = name)) :
    selectAction? (a :: rest) name = (a :: rest).find? (·.name = name) := by
  by_cases hbare : a.name = name
  · exact selectAction?_cons_of_bare hbare
  · rw [selectAction?_cons_of_neg hfull hbare, List.find?_cons_of_neg (by simpa using hbare), h]

theorem selectAction?_of_absent (h : ∀ a ∈ actions, a.fullName ≠ name) :
    selectAction? actions name = actions.find? (·.name = name) := by
  induction actions with
  | nil => rfl
  | cons a rest ih =>
    obtain ⟨hfull, hrest⟩ := List.forall_mem_cons.1 h
    exact selectAction?_cons_bare hfull (ih hrest)

theorem Shadowed.selectAction? (h : Shadowed name actions) :
    selectAction? actions name = actions.find? (·.name = name) := by
  induction h with
  | here hbare _ => exact selectAction?_cons_of_bare hbare
  | later hfull _ ih => exact selectAction?_cons_bare hfull ih

theorem Shadowed.fullName_ne (h : Shadowed name actions)
    (ha : Cli.selectAction? actions name = some a) : a.fullName ≠ name := by
  induction h with
  | here hbare hspace =>
    rw [selectAction?_cons_of_pos (.inr hbare)] at ha
    cases ha
    exact fun hfull => hspace ((fullName_eq_bare hbare).1 hfull)
  | @later first rest hfull _ ih =>
    by_cases hbare : first.name = name
    · rw [selectAction?_cons_of_pos (.inr hbare)] at ha
      cases ha
      exact hfull
    · rw [selectAction?_cons_of_neg hfull hbare] at ha
      exact ih ha

theorem selectAction?_of_not_shadowed (h : ¬ Shadowed name actions)
    (hmem : ∃ a ∈ actions, a.fullName = name) :
    selectAction? actions name = actions.find? (·.fullName = name) := by
  induction actions with
  | nil => simp at hmem
  | cons a rest ih =>
    by_cases hfull : a.fullName = name
    · rw [selectAction?_cons_of_pos (.inl hfull), List.find?_cons_of_pos (by simpa using hfull)]
    · -- An action of the same bare name would be one of a name space, and shadow the rest.
      have hbare : a.name ≠ name := by
        intro hbare
        exact h (.here hbare fun hspace => hfull ((fullName_eq_bare hbare).2 hspace))
      rw [selectAction?_cons_of_neg hfull hbare, List.find?_cons_of_neg (by simpa using hfull)]
      apply ih
      · exact fun hrest => h (.later hfull hrest)
      · simpa [hfull] using hmem

end

structure Selection (name : String) (actions : List Action)
    (outcome : Except CommandError Action) : Prop where
  /-- The action that the name means in full is selected exactly if none stands in its way. -/
  full : ∀ a, FirstWith (·.fullName = name) actions a →
    (outcome = .ok a ↔ ¬ Shadowed name actions)
  /-- The first action with the bare name stands in the way, or stands in for a missing one. -/
  bare : Shadowed name actions ∨ (∀ a ∈ actions, a.fullName ≠ name) →
    ∀ a, outcome = .ok a ↔ FirstWith (·.name = name) actions a
  fails : outcome = .error (.actionNotFound name) ↔
    ∀ a ∈ actions, a.fullName ≠ name ∧ a.name ≠ name

theorem chooseAction_eq_ok {file name : String} {actions : List Action} {a : Action} :
    chooseAction file actions (some name) = .ok a ↔ selectAction? actions name = some a := by
  rw [chooseAction]
  cases selectAction? actions name <;> simp

theorem chooseAction_eq_error {file name : String} {actions : List Action} :
    chooseAction file actions (some name) = .error (.actionNotFound name) ↔
      selectAction? actions name = none := by
  rw [chooseAction]
  cases selectAction? actions name <;> simp

/--
A name selects the action that it means, unless an earlier action of a name space has it as its bare
name. It is refused exactly if it is neither the full nor the bare name of an action.
-/
theorem chooseAction_selection (file name : String) (actions : List Action) :
    Selection name actions (chooseAction file actions (some name)) := by
  constructor
  case full =>
    intro a hfirst
    rw [chooseAction_eq_ok]
    constructor
    · intro hselect hshadowed
      exact hshadowed.fullName_ne hselect hfirst.1
    · intro hfree
      rw [selectAction?_of_not_shadowed hfree ⟨a, hfirst.mem, hfirst.1⟩]
      exact find?_eq_some_iff_first.2 hfirst
  case bare =>
    intro h a
    rw [chooseAction_eq_ok, ← find?_eq_some_iff_first]
    cases h with
    | inl hshadowed => rw [hshadowed.selectAction?]
    | inr habsent => rw [selectAction?_of_absent habsent]
  case fails =>
    rw [chooseAction_eq_error]
    simp [selectAction?]

/-- An action outside of any name space is not reached behind one that shares its bare name. -/
theorem chooseAction_shadowed :
    let other : Action := { name := "login", space := "x", steps := [] }
    let meant : Action := { name := "login", steps := [] }
    meant.fullName = "login" ∧ other.fullName = "x:login" ∧
      chooseAction "a.json" [other, meant] (some "login") = .ok other := by
  intro other meant
  refine ⟨rfl, rfl, ?_⟩
  exact chooseAction_eq_ok.2 (selectAction?_cons_of_pos (.inr rfl))

end PageFlow.Cli
