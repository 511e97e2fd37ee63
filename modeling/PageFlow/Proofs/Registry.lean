import PageFlow.Proofs.Table
import PageFlow.Registry

namespace PageFlow

inductive Registration where
  | action (a : Action)
  | selectors (space : String) (entries : Table Json)

namespace Registration

/-- The action that is registered, under its full name. -/
def named : Registration → List (String × Action)
  | action a => [(a.fullName, a)]
  | selectors .. => []

def addsTo (space : String) : Registration → Bool
  | action _ => false
  | selectors other _ => other = space

/-- The selectors that are added for a name space. -/
def entriesFor (space : String) : Registration → Table Json
  | action _ => []
  | selectors other entries => if other = space then entries else []

theorem entriesFor_of_not_addsTo {space : String} {op : Registration}
    (h : op.addsTo space = false) : op.entriesFor space = [] := by
  cases op with
  | action a => rfl
  | selectors other entries => exact if_neg (of_decide_eq_false h)

end Registration

namespace Registry

/-- The actions that a history registers, in order. -/
def registered (history : List Registration) : List (String × Action) :=
  history.flatMap Registration.named

def added (history : List Registration) (space : String) : Table Json :=
  history.flatMap (Registration.entriesFor space)

theorem mem_registered {history : List Registration} {name : String} {a : Action} :
    (name, a) ∈ registered history ↔ .action a ∈ history ∧ a.fullName = name := by
  rw [registered, List.mem_flatMap]
  constructor
  · intro ⟨op, hop, hnamed⟩
    cases op with
    | action b =>
      cases List.mem_singleton.1 hnamed
      exact ⟨hop, rfl⟩
    | selectors space entries => cases hnamed
  · intro ⟨hop, hname⟩
    exact ⟨.action a, hop, hname ▸ List.mem_singleton_self _⟩

theorem added_filter (history : List Registration) (space : String) :
    added (history.filter (Registration.addsTo space)) space = added history space := by
  induction history with
  | nil => rfl
  | cons op rest ih =>
    simp only [added, List.filter_cons, List.flatMap_cons] at ih ⊢
    split
    · rw [List.flatMap_cons, ih]
    · next hother =>
      rw [ih, Registration.entriesFor_of_not_addsTo (Bool.eq_false_iff.2 hother), List.nil_append]

def apply (r : Registry) : Registration → Registry
  | .action a => r.register a
  | .selectors space entries => r.addSelectors space entries

def after (history : List Registration) : Registry :=
  history.foldl apply {}

theorem actions_apply (r : Registry) (op : Registration) :
    (r.apply op).actions = r.actions.insertAll op.named := by
  cases op <;> rfl

theorem selectorsOf_apply (r : Registry) (op : Registration) (a : Action) :
    (r.apply op).selectorsOf a = (r.selectorsOf a).insertAll (op.entriesFor a.space) := by
  cases op with
  | action b => rfl
  | selectors space entries =>
    rw [apply, addSelectors, selectorsOf, Table.get?_insert, Registration.entriesFor]
    split
    · next heq =>
      rw [selectorsOf, heq]
      rfl
    · rfl

/-- A table of a registry that every operation adds entries to holds, in the end, all of them. -/
theorem table_foldl {α : Type} {table : Registry → Table α}
    {entries : Registration → List (String × α)}
    (step : ∀ r op, table (r.apply op) = (table r).insertAll (entries op))
    (history : List Registration) (r : Registry) :
    table (history.foldl apply r) = (table r).insertAll (history.flatMap entries) := by
  induction history generalizing r with
  | nil => rfl
  | cons op rest ih => rw [List.foldl_cons, ih, step, List.flatMap_cons, Table.insertAll_append]

theorem actions_after (history : List Registration) :
    (after history).actions = .ofList (registered history) :=
  table_foldl actions_apply history {}

theorem selectorsOf_after (history : List Registration) (a : Action) :
    (after history).selectorsOf a = .ofList (added history a.space) :=
  @table_foldl Json (·.selectorsOf a) _ (fun r op => selectorsOf_apply r op a) history {}

theorem lookup?_after {history : List Registration} {name : String} {a : Action} :
    (after history).lookup? name = some a ↔ Table.Latest (registered history) name a := by
  rw [lookup?, actions_after, Table.get?_ofList]

theorem mem_names_after {history : List Registration} {name : String} :
    name ∈ (after history).names ↔ ∃ a, .action a ∈ history ∧ a.fullName = name := by
  rw [names, actions_after, Table.mem_keys_iff]
  simp only [Table.get?_ofList, Table.exists_latest, mem_registered]

/--
The action that a name means to a caller after a history. A name without a colon is tried in the
name space of the caller first.
-/
inductive Resolves (history : List Registration) (space target : String) (a : Action) : Prop where
  | own (inside : space ≠ "") (bare : ':' ∉ target.toList)
      (last : Table.Latest (registered history) (space ++ ":" ++ target) a)
  | other (skipped : space = "" ∨ ':' ∈ target.toList ∨
        ∀ b, .action b ∈ history → b.fullName ≠ space ++ ":" ++ target)
      (last : Table.Latest (registered history) target a)

theorem lookup?_after_eq_none {history : List Registration} {name : String} :
    (after history).lookup? name = none ↔ ∀ b, .action b ∈ history → b.fullName ≠ name := by
  rw [Option.eq_none_iff_forall_ne_some]
  constructor
  · intro h b hb hname
    obtain ⟨last, hlast⟩ := Table.exists_latest.2 ⟨b, mem_registered.2 ⟨hb, hname⟩⟩
    exact h last (lookup?_after.2 hlast)
  · intro h a ha
    obtain ⟨last, hmem⟩ := Table.exists_latest.1 ⟨a, lookup?_after.1 ha⟩
    obtain ⟨hb, hname⟩ := mem_registered.1 hmem
    exact h last hb hname

theorem target?_after {history : List Registration} {space target : String} {a : Action} :
    (after history).target? space target = some a ↔ Resolves history space target a := by
  rw [target?]
  split
  · next hskip =>
    have hcases : space = "" ∨ ':' ∈ target.toList := by simpa [or_comm] using hskip
    rw [lookup?_after]
    constructor
    · exact fun hlast => .other (hcases.imp id .inl) hlast
    · intro h
      cases h with
      | own hinside hbare _ => exact absurd hcases (not_or.2 ⟨hinside, hbare⟩)
      | other _ hlast => exact hlast
  · next hskip =>
    have hcases : space ≠ "" ∧ ':' ∉ target.toList := by simpa [and_comm] using hskip
    rw [Option.or_eq_some_iff, qualify, if_neg hcases.1, lookup?_after, lookup?_after_eq_none,
      lookup?_after]
    constructor
    · intro h
      rcases h with hown | ⟨hnone, hlast⟩
      · exact .own hcases.1 hcases.2 hown
      · exact .other (.inr (.inr hnone)) hlast
    · intro h
      cases h with
      | own _ _ hlast => exact .inl hlast
      | other hskipped hlast =>
        rcases hskipped with hspace | hcolon | hnone
        · exact absurd hspace hcases.1
        · exact absurd hcolon hcases.2
        · exact .inr ⟨hnone, hlast⟩

structure Reflects (r : Registry) (history : List Registration) : Prop where
  target : ∀ space target a, r.target? space target = some a ↔ Resolves history space target a
  names_sorted : r.names.Pairwise (· < ·)
  mem_names : ∀ name, name ∈ r.names ↔ ∃ a, .action a ∈ history ∧ a.fullName = name
  size : r.size = r.names.length
  selectors : ∀ a key value, (r.selectorsOf a).get? key = some value ↔
    Table.Latest (added history a.space) key value
  selectors_sorted : ∀ a, (r.selectorsOf a).Sorted
  /-- What was added for other name spaces, and what was registered, makes no difference. -/
  selectors_apart : ∀ a, r.selectorsOf a =
    (after (history.filter (Registration.addsTo a.space))).selectorsOf a

/-- Every history of registrations is reflected. -/
theorem after_reflects (history : List Registration) : (after history).Reflects history := by
  constructor
  case target => exact fun space target a => target?_after
  case names_sorted =>
    rw [names, actions_after, Table.keys, List.pairwise_map]
    exact Table.sorted_ofList _
  case mem_names => exact fun name => mem_names_after
  case size => exact (List.length_map ..).symm
  case selectors =>
    intro a key value
    rw [selectorsOf_after, Table.get?_ofList]
  case selectors_sorted =>
    intro a
    rw [selectorsOf_after]
    exact Table.sorted_ofList _
  case selectors_apart =>
    intro a
    rw [selectorsOf_after, selectorsOf_after, added_filter]

/-- A name with a colon can be the full name of an action in a name space, and takes its place. -/
example : (after [.action { name := "a", space := "x", steps := [] },
    .action { name := "x:a", steps := [] }]).names = ["x:a"] := by
  decide

end Registry

end PageFlow
