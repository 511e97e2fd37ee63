import PageFlow.Action.Params
import PageFlow.Proofs.Table

namespace PageFlow

namespace ParamSpec

def Satisfied (spec : ParamSpec) : Option Json → Prop
  | some value => spec.type.accepts value
  | none => spec.default.isSome ∨ spec.required = false

inductive Fails (spec : ParamSpec) : Option Json → ParamFault → Prop where
  | wrongType {value : Json} (type : spec.type.accepts value = false) :
      Fails spec (some value) (.wrongType spec.name spec.type value.typeName)
  | missing (default : spec.default = none) (required : spec.required = true) :
      Fails spec none (.missing spec.name)

/-- The default that a parameter takes if no value is given for it. -/
def taken? (spec : ParamSpec) : Option Json → Option Json
  | some _ => none
  | none => spec.default

def fill (spec : ParamSpec) (supplied : Table Json) : Table Json :=
  match spec.taken? (given? supplied spec.name) with
  | some default => supplied.insert spec.name default
  | none => supplied

/-- Its default is a value of its type. -/
def Typed (spec : ParamSpec) : Prop :=
  ∀ default, spec.default = some default → spec.type.accepts default

section

variable {spec other : ParamSpec} {supplied next : Table Json} {fault : ParamFault}

theorem bind_eq_ok : spec.bind supplied = .ok next ↔
    spec.Satisfied (given? supplied spec.name) ∧ spec.fill supplied = next := by
  rw [bind, fill]
  cases given? supplied spec.name with
  | some value => cases h : spec.type.accepts value <;> simp [Satisfied, taken?, h]
  | none =>
    cases h : spec.default with
    | some default => simp [Satisfied, taken?, h]
    | none => cases hr : spec.required <;> simp [Satisfied, taken?, h, hr]

theorem bind_eq_error :
    spec.bind supplied = .error fault ↔ spec.Fails (given? supplied spec.name) fault := by
  constructor
  · intro h
    rw [bind] at h
    split at h
    · next value hgiven =>
      split at h
      · cases h
      · next htype =>
        cases h
        exact hgiven ▸ .wrongType (Bool.eq_false_iff.2 htype)
    · cases h
    · next hgiven hdefault =>
      split at h
      · next hrequired =>
        cases h
        exact hgiven ▸ .missing hdefault hrequired
      · cases h
  · intro h
    generalize hgiven : given? supplied spec.name = given at h
    cases h with
    | wrongType htype => simp [bind, hgiven, htype]
    | missing hdefault hrequired => simp [bind, hgiven, hdefault, hrequired]

theorem get?_fill_of_ne {name : String} (hne : spec.name ≠ name) :
    (spec.fill supplied).get? name = supplied.get? name := by
  rw [fill]
  split
  · rw [Table.get?_insert, if_neg hne]
  · rfl

theorem get?_fill : (spec.fill supplied).get? spec.name =
    (spec.taken? (given? supplied spec.name)).or (supplied.get? spec.name) := by
  rw [fill]
  split
  · next default htaken =>
    rw [htaken, Table.get?_insert, if_pos rfl]
    rfl
  · next htaken =>
    rw [htaken]
    rfl

theorem fill_of_none (h : spec.taken? (given? supplied spec.name) = none) :
    spec.fill supplied = supplied := by
  rw [fill, h]

theorem fill_of_some {default : Json}
    (h : spec.taken? (given? supplied spec.name) = some default) :
    spec.fill supplied = supplied.insert spec.name default := by
  rw [fill, h]

theorem given?_fill (hne : other.name ≠ spec.name) :
    given? (other.fill supplied) spec.name = given? supplied spec.name := by
  rw [given?, get?_fill_of_ne hne, given?]

theorem taken?_fill (hne : other.name ≠ spec.name) :
    spec.taken? (given? (other.fill supplied) spec.name) =
      spec.taken? (given? supplied spec.name) := by
  rw [given?_fill hne]

theorem fill_comm (hne : other.name ≠ spec.name) :
    spec.fill (other.fill supplied) = other.fill (spec.fill supplied) := by
  cases h : spec.taken? (given? supplied spec.name) with
  | none => rw [fill_of_none h, fill_of_none ((taken?_fill hne).trans h)]
  | some default =>
    cases ho : other.taken? (given? supplied other.name) with
    | none => rw [fill_of_none ho, fill_of_none ((taken?_fill hne.symm).trans ho)]
    | some default' =>
      rw [fill_of_some ((taken?_fill hne).trans h), fill_of_some ((taken?_fill hne.symm).trans ho),
        fill_of_some h, fill_of_some ho]
      exact Table.insert_comm _ _ _ hne.symm _

theorem default_of_taken {given : Option Json} {default : Json}
    (h : spec.taken? given = some default) : spec.default = some default := by
  cases given with
  | some value => cases h
  | none => exact h

theorem given?_of_get? {name : String} {value : Json} (h : supplied.get? name = some value)
    (hnull : value ≠ .null) : given? supplied name = some value := by
  rw [given?, h]
  split
  · next heq => exact absurd (Option.some.inj heq) hnull
  · rfl

/-- A default that is taken settles its parameter; one that is null is taken once more. -/
theorem bind_again (typed : spec.Typed) (h : spec.bind supplied = .ok next) :
    spec.bind next = .ok next := by
  obtain ⟨-, rfl⟩ := bind_eq_ok.1 h
  cases htaken : spec.taken? (given? supplied spec.name) with
  | none => rwa [fill_of_none htaken] at h ⊢
  | some default =>
    have hget : (spec.fill supplied).get? spec.name = some default := by
      rw [get?_fill, htaken]
      rfl
    have hdefault := default_of_taken htaken
    by_cases hnull : default = .null
    · -- A null counts as not given, so the same default goes in at the same place.
      have hgiven : given? (spec.fill supplied) spec.name = none := by
        rw [given?, hget, hnull]
      rw [bind, hgiven, hdefault, fill_of_some htaken]
      exact congrArg Except.ok (Table.insert_self ..)
    · rw [bind, given?_of_get? hget hnull]
      exact if_pos (typed default hdefault)

/-- A settled parameter stays so while one of another name is settled. -/
theorem bind_stays (hne : other.name ≠ spec.name) (h : spec.bind supplied = .ok supplied)
    (ho : other.bind supplied = .ok next) : spec.bind next = .ok next := by
  obtain ⟨hsatisfied, hfill⟩ := bind_eq_ok.1 h
  obtain ⟨-, rfl⟩ := bind_eq_ok.1 ho
  apply bind_eq_ok.2
  rw [given?_fill hne, fill_comm hne, hfill]
  exact ⟨hsatisfied, rfl⟩

end

inductive FirstFault (supplied : Table Json) : List ParamSpec → ParamFault → Prop where
  | here {spec : ParamSpec} {rest : List ParamSpec} {fault : ParamFault}
      (fails : spec.Fails (given? supplied spec.name) fault) :
      FirstFault supplied (spec :: rest) fault
  | later {spec : ParamSpec} {rest : List ParamSpec} {fault : ParamFault}
      (satisfied : spec.Satisfied (given? supplied spec.name))
      (others : FirstFault supplied rest fault) : FirstFault supplied (spec :: rest) fault

def Distinct (specs : List ParamSpec) : Prop :=
  specs.Pairwise fun spec other => spec.name ≠ other.name

/-- What is given for the parameters that are still to be settled is what was supplied. -/
def Untouched (specs : List ParamSpec) (supplied current : Table Json) : Prop :=
  ∀ spec ∈ specs, current.get? spec.name = supplied.get? spec.name

section

variable {spec : ParamSpec} {specs : List ParamSpec} {supplied current next bound : Table Json}
  {fault : ParamFault}

theorem Untouched.given_eq (h : Untouched specs supplied current) (hmem : spec ∈ specs) :
    given? current spec.name = given? supplied spec.name := by
  rw [given?, h spec hmem, given?]

theorem Untouched.fill (h : Untouched (spec :: specs) supplied current)
    (distinct : Distinct (spec :: specs)) : Untouched specs supplied (spec.fill current) := by
  intro other hother
  have hne := (List.pairwise_cons.1 distinct).1 other hother
  exact (get?_fill_of_ne hne).trans (h other (List.mem_cons_of_mem _ hother))

theorem bindAll_of_ok (h : spec.bind current = .ok next) :
    bindAll (spec :: specs) current = bindAll specs next := by
  rw [bindAll, h]
  rfl

theorem bindAll_of_error (h : spec.bind current = .error fault) :
    bindAll (spec :: specs) current = .error fault := by
  rw [bindAll, h]
  rfl

theorem bindAll_cons (h : bindAll (spec :: specs) current = .ok bound) :
    spec.bind current = .ok (spec.fill current) ∧
      bindAll specs (spec.fill current) = .ok bound := by
  cases hspec : spec.bind current with
  | error fault =>
    rw [bindAll_of_error hspec] at h
    cases h
  | ok next =>
    obtain ⟨-, rfl⟩ := bind_eq_ok.1 hspec
    exact ⟨rfl, bindAll_of_ok hspec ▸ h⟩

theorem bindAll_succeeds (distinct : Distinct specs) (h : Untouched specs supplied current) :
    (∃ bound, bindAll specs current = .ok bound) ↔
      ∀ spec ∈ specs, spec.Satisfied (given? supplied spec.name) := by
  -- The table changes from one parameter to the next; what is given for those to come does not.
  induction specs generalizing current with
  | nil => simp [bindAll]
  | cons spec rest ih =>
    rw [List.forall_mem_cons, ← h.given_eq List.mem_cons_self,
      ← ih (List.pairwise_cons.1 distinct).2 (h.fill distinct)]
    constructor
    · intro ⟨bound, hbound⟩
      obtain ⟨hspec, hrest⟩ := bindAll_cons hbound
      exact ⟨(bind_eq_ok.1 hspec).1, bound, hrest⟩
    · intro ⟨hsatisfied, bound, hbound⟩
      exact ⟨bound, (bindAll_of_ok (bind_eq_ok.2 ⟨hsatisfied, rfl⟩)).trans hbound⟩

theorem bindAll_fails (distinct : Distinct specs) (h : Untouched specs supplied current) :
    bindAll specs current = .error fault ↔ FirstFault supplied specs fault := by
  induction specs generalizing current with
  | nil =>
    constructor
    · intro herror
      cases herror
    · intro hfirst
      cases hfirst
  | cons spec rest ih =>
    have hgiven := h.given_eq List.mem_cons_self
    have hrest := ih (List.pairwise_cons.1 distinct).2 (h.fill distinct)
    constructor
    · intro herror
      cases hspec : spec.bind current with
      | error found =>
        rw [bindAll_of_error hspec] at herror
        cases herror
        exact .here (hgiven ▸ bind_eq_error.1 hspec)
      | ok next =>
        obtain ⟨hsatisfied, rfl⟩ := bind_eq_ok.1 hspec
        rw [bindAll_of_ok hspec] at herror
        exact .later (hgiven ▸ hsatisfied) (hrest.1 herror)
    · intro hfirst
      cases hfirst with
      | here hfails => exact bindAll_of_error (bind_eq_error.2 (hgiven ▸ hfails))
      | later hsatisfied hothers =>
        have hspec : spec.bind current = .ok (spec.fill current) :=
          bind_eq_ok.2 ⟨hgiven ▸ hsatisfied, rfl⟩
        exact (bindAll_of_ok hspec).trans (hrest.2 hothers)

theorem get?_bindAll_of_notMem {name : String} (h : bindAll specs current = .ok bound)
    (hname : ∀ spec ∈ specs, spec.name ≠ name) : bound.get? name = current.get? name := by
  induction specs generalizing current with
  | nil =>
    cases h
    rfl
  | cons spec rest ih =>
    obtain ⟨hspec, hrest⟩ := List.forall_mem_cons.1 hname
    exact (ih (bindAll_cons h).2 hrest).trans (get?_fill_of_ne hspec)

theorem get?_bindAll_of_mem (distinct : Distinct specs) (h : Untouched specs supplied current)
    (hbound : bindAll specs current = .ok bound) (hmem : spec ∈ specs) :
    bound.get? spec.name =
      (spec.taken? (given? supplied spec.name)).or (supplied.get? spec.name) := by
  induction specs generalizing current with
  | nil => cases hmem
  | cons first rest ih =>
    obtain ⟨hothers, hdistinct⟩ := List.pairwise_cons.1 distinct
    have hrest := (bindAll_cons hbound).2
    cases hmem with
    | head =>
      have hne : ∀ other ∈ rest, other.name ≠ spec.name := fun other ho => (hothers other ho).symm
      rw [get?_bindAll_of_notMem hrest hne, get?_fill, h.given_eq List.mem_cons_self,
        h spec List.mem_cons_self]
    | tail _ hmem => exact ih hdistinct (h.fill distinct) hrest hmem

theorem sorted_bindAll (h : bindAll specs current = .ok bound) (hsorted : current.Sorted) :
    bound.Sorted := by
  induction specs generalizing current with
  | nil =>
    cases h
    exact hsorted
  | cons spec rest ih =>
    apply ih (bindAll_cons h).2
    rw [ParamSpec.fill]
    split
    · exact hsorted.insert _ _
    · exact hsorted

theorem bindAll_stays (hname : ∀ other ∈ specs, other.name ≠ spec.name)
    (h : spec.bind current = .ok current) (hbound : bindAll specs current = .ok bound) :
    spec.bind bound = .ok bound := by
  induction specs generalizing current with
  | nil =>
    cases hbound
    exact h
  | cons other rest ih =>
    obtain ⟨hne, hrest⟩ := List.forall_mem_cons.1 hname
    obtain ⟨hother, hothers⟩ := bindAll_cons hbound
    exact ih hrest (bind_stays hne h hother) hothers

theorem bindAll_again (distinct : Distinct specs) (typed : ∀ spec ∈ specs, spec.Typed)
    (h : bindAll specs current = .ok bound) : bindAll specs bound = .ok bound := by
  induction specs generalizing current with
  | nil => rfl
  | cons spec rest ih =>
    obtain ⟨hothers, hdistinct⟩ := List.pairwise_cons.1 distinct
    obtain ⟨hspec, hrest⟩ := bindAll_cons h
    have hne : ∀ other ∈ rest, other.name ≠ spec.name := fun other ho => (hothers other ho).symm
    -- The first parameter is settled right after its own turn, and no later one unsettles it.
    have hsettled := bindAll_stays hne (bind_again (typed spec List.mem_cons_self) hspec) hrest
    rw [bindAll_of_ok hsettled]
    exact ih hdistinct (fun other ho => typed other (List.mem_cons_of_mem _ ho)) hrest

end

end ParamSpec

/-- What an action is given under names; null gives nothing. -/
def suppliedOf? : Json → Option (Table Json)
  | .object fields => some fields
  | .null => some []
  | _ => none

/-- What binding makes of the values that are supplied for declared parameters. -/
structure Action.Binds (a : Action) (supplied : Table Json)
    (outcome : Except ParamFault (Table Json)) : Prop where
  succeeds : (∃ bound, outcome = .ok bound) ↔
    ∀ spec ∈ a.params, spec.Satisfied (given? supplied spec.name)
  fails : ∀ fault, outcome = .error fault ↔ ParamSpec.FirstFault supplied a.params fault
  taken : ∀ bound, outcome = .ok bound → ∀ spec ∈ a.params, ∀ default,
    spec.taken? (given? supplied spec.name) = some default →
      bound.get? spec.name = some default
  kept : ∀ bound, outcome = .ok bound → ∀ name,
    (∀ spec ∈ a.params, spec.name = name → spec.taken? (given? supplied name) = none) →
      bound.get? name = supplied.get? name
  sorted : ∀ bound, outcome = .ok bound → supplied.Sorted → bound.Sorted
  again : ∀ bound, outcome = .ok bound → a.bindParams (.object bound) = .ok bound

section

variable {a : Action} (distinct : ParamSpec.Distinct a.params)
  (typed : ∀ spec ∈ a.params, spec.Typed)

include distinct typed

theorem ParamSpec.bindAll_binds (supplied : Table Json) :
    a.Binds supplied (ParamSpec.bindAll a.params supplied) := by
  have huntouched : Untouched a.params supplied supplied := fun _ _ => rfl
  constructor
  case succeeds => exact bindAll_succeeds distinct huntouched
  case fails => exact fun fault => bindAll_fails distinct huntouched
  case taken =>
    intro bound hbound spec hspec default htaken
    rw [get?_bindAll_of_mem distinct huntouched hbound hspec, htaken]
    rfl
  case kept =>
    intro bound hbound name hname
    by_cases hmem : ∃ spec ∈ a.params, spec.name = name
    · obtain ⟨spec, hspec, rfl⟩ := hmem
      rw [get?_bindAll_of_mem distinct huntouched hbound hspec, hname spec hspec rfl]
      rfl
    · exact get?_bindAll_of_notMem hbound fun spec hspec heq => hmem ⟨spec, hspec, heq⟩
  case sorted => exact fun bound hbound => sorted_bindAll hbound
  case again => exact fun bound hbound => bindAll_again distinct typed hbound

/--
Parameters that are neither an object nor null are refused. All others are bound as their
declaration says, and what they are bound to binds to itself.
-/
theorem Action.bindParams_binds (params : Json) :
    match suppliedOf? params with
    | some supplied => a.Binds supplied (a.bindParams params)
    | none => a.bindParams params = .error (.notAnObject params.typeName) := by
  cases params with
  | object fields => exact ParamSpec.bindAll_binds distinct typed fields
  | null => exact ParamSpec.bindAll_binds distinct typed []
  | bool | number | string | array => rfl

end

def searching : Action where
  name := "search"
  params := [
    { name := "query", type := .string },
    { name := "limit", type := .number, default := some (.int 10) },
    { name := "tag", default := some .null },
    { name := "note", type := .string, required := false }]
  steps := []

/-- A null is replaced by a default, an undeclared value stays, and the first fault is reported. -/
theorem bindParams_binds_searching :
    ParamSpec.Distinct searching.params ∧ (∀ spec ∈ searching.params, spec.Typed) ∧
      (∃ bound, searching.bindParams (.object
          [("limit", .null), ("page", .int 2), ("query", .string "rust")]) = .ok bound ∧
        bound.get? "limit" = some (.int 10) ∧ bound.get? "tag" = some .null ∧
        bound.get? "page" = some (.int 2) ∧ bound.get? "note" = none ∧
        searching.bindParams (.object bound) = .ok bound) ∧
      searching.bindParams (.object [("limit", .bool true), ("note", .null)]) =
        .error (.missing "query") := by
  have distinct : ParamSpec.Distinct searching.params := by
    simp [ParamSpec.Distinct, searching]
  have typed : ∀ spec ∈ searching.params, spec.Typed := by
    simp [ParamSpec.Typed, searching, ParamType.accepts, Json.int]
  have hbinds := Action.bindParams_binds distinct typed (.object
    [("limit", .null), ("page", .int 2), ("query", .string "rust")])
  have hfaulty := Action.bindParams_binds distinct typed (.object
    [("limit", .bool true), ("note", .null)])
  have hsatisfied : ∀ spec ∈ searching.params, spec.Satisfied (given?
      [("limit", .null), ("page", .int 2), ("query", .string "rust")] spec.name) := by
    simp [searching, ParamSpec.Satisfied, given?, Table.get?, ParamType.accepts]
  obtain ⟨bound, hbound⟩ := hbinds.succeeds.2 hsatisfied
  refine ⟨distinct, typed, ⟨bound, hbound, ?_, ?_, ?_, ?_, hbinds.again bound hbound⟩, ?_⟩
  · exact hbinds.taken bound hbound searching.params[1] (by simp [searching]) _ rfl
  · exact hbinds.taken bound hbound searching.params[2] (by simp [searching]) _ rfl
  · exact hbinds.kept bound hbound "page" (by simp [searching])
  · have hnote : ∀ spec ∈ searching.params, spec.name = "note" → spec.taken? (given?
        [("limit", .null), ("page", .int 2), ("query", .string "rust")] "note") = none := by
      simp [searching, given?, Table.get?, ParamSpec.taken?]
    exact hbinds.kept bound hbound "note" hnote
  · exact (hfaulty.fails _).2 (.here (.missing rfl rfl))

end PageFlow
