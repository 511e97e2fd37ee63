import Mathlib.Algebra.Group.Nat.Defs
import PageFlow.Action.Decode

namespace PageFlow

open Json (record? enumName? natOfBits? Field.required Field.optional Field.withDefault)

inductive RecordForm where
  | param
  | check
  | step
  | action

/-- What becomes of a field that is not given. -/
inductive Presence where
  /-- Every record has it. -/
  | required
  /-- A missing field and a null are left out. -/
  | optional
  /-- A missing field gets a value. -/
  | filled (default : Json)
  /-- A missing field and an empty list are left out. -/
  | sparse

inductive Content where
  | anything
  | text
  | flag
  | count (bits : Nat)
  | oneOf (names : List String)
  | table
  | listOf (form : RecordForm)

structure FieldForm where
  key : String
  presence : Presence
  content : Content

def RecordForm.fields : RecordForm → List FieldForm
  | param => [
      ⟨"name", .required, .text⟩,
      ⟨"type", .filled (.string "any"),
        .oneOf ["string", "number", "boolean", "object", "array", "any"]⟩,
      ⟨"required", .filled (.bool true), .flag⟩,
      ⟨"default", .optional, .anything⟩,
      ⟨"description", .optional, .text⟩]
  | check => [
      ⟨"condition", .required, .text⟩,
      ⟨"message", .optional, .text⟩]
  | step => [
      ⟨"action", .required,
        .oneOf ["open", "click", "fill", "type", "press", "wait", "count", "visible", "eval",
          "run"]⟩,
      ⟨"args", .filled (.object []), .table⟩,
      ⟨"when", .optional, .text⟩,
      ⟨"output", .optional, .text⟩,
      ⟨"timeout", .optional, .count 64⟩,
      ⟨"retry", .filled (.nat 0), .count 32⟩,
      ⟨"retryDelay", .filled (.nat 1000), .count 64⟩,
      ⟨"onError", .filled (.string "abort"), .oneOf ["continue", "abort", "fallback"]⟩,
      ⟨"fallback", .sparse, .listOf .step⟩]
  | action => [
      ⟨"name", .required, .text⟩,
      ⟨"namespace", .filled (.string ""), .text⟩,
      ⟨"description", .optional, .text⟩,
      ⟨"params", .filled (.array []), .listOf .param⟩,
      ⟨"steps", .required, .listOf .step⟩,
      ⟨"returns", .optional, .table⟩,
      ⟨"verify", .sparse, .listOf .check⟩]

def RecordForm.keys (form : RecordForm) : List String :=
  form.fields.map FieldForm.key

/-- A field of this value, or without one, is not written. -/
def Presence.LeavesOut : Presence → Option Json → Prop
  | optional, none => True
  | optional, some .null => True
  | sparse, none => True
  | sparse, some (.array []) => True
  | _, _ => False

mutual

inductive Content.Restates : Content → Json → Json → Prop
  | anything (j : Json) : Content.Restates .anything j j
  | text (s : String) : Content.Restates .text (.string s) (.string s)
  | flag (b : Bool) : Content.Restates .flag (.bool b) (.bool b)
  | count {bits n : Nat} (h : n < 2 ^ bits) : Content.Restates (.count bits) (.nat n) (.nat n)
  | oneOf {names : List String} {j : Json} {name : String} (hname : enumName? j = some name)
      (hmem : name ∈ names) : Content.Restates (.oneOf names) j (.string name)
  | table (fields : Table Json) : Content.Restates .table (.object fields) (.object fields)
  | listOf {form : RecordForm} {items written : List Json}
      (h : RecordForm.RestatesEach form items written) :
      Content.Restates (.listOf form) (.array items) (.array written)

inductive RecordForm.RestatesEach : RecordForm → List Json → List Json → Prop
  | nil {form : RecordForm} : RecordForm.RestatesEach form [] []
  | cons {form : RecordForm} {item item' : Json} {items items' : List Json}
      (h : RecordForm.Restates form item item') (rest : RecordForm.RestatesEach form items items') :
      RecordForm.RestatesEach form (item :: items) (item' :: items')

inductive RecordForm.Restates : RecordForm → Json → Json → Prop
  | intro {form : RecordForm} {j : Json} {given written : Table Json}
      (hgiven : record? form.keys j = some given)
      (h : FieldForm.RestatesAll form.fields given written) :
      RecordForm.Restates form j (.object written)

/-- What is given for a field, if anything, and what is written for it, if anything. -/
inductive FieldForm.Restates : FieldForm → Option Json → Option Json → Prop
  | kept {field : FieldForm} {v v' : Json} (hkept : ¬ field.presence.LeavesOut (some v))
      (h : Content.Restates field.content v v') : FieldForm.Restates field (some v) (some v')
  | filled {field : FieldForm} {default : Json} (h : field.presence = .filled default) :
      FieldForm.Restates field none (some default)
  | leftOut {field : FieldForm} {given : Option Json} (h : field.presence.LeavesOut given) :
      FieldForm.Restates field given none

/-- The written table has one entry for each field that is written, in the order of the fields. -/
inductive FieldForm.RestatesAll : List FieldForm → Table Json → Table Json → Prop
  | nil {given : Table Json} : FieldForm.RestatesAll [] given []
  | cons {field : FieldForm} {fields : List FieldForm} {given written : Table Json}
      {value : Option Json} (h : FieldForm.Restates field (given.get? field.key) value)
      (rest : FieldForm.RestatesAll fields given written) :
      FieldForm.RestatesAll (field :: fields) given (Json.optional field.key value ++ written)

end

mutual

theorem Content.Restates.unique {content : Content} {v v₁ v₂ : Json} :
    content.Restates v v₁ → content.Restates v v₂ → v₁ = v₂
  | .anything _, .anything _ => rfl
  | .text _, .text _ => rfl
  | .flag _, .flag _ => rfl
  | .count _, .count _ => rfl
  | .oneOf hname _, .oneOf hname' _ => by
    rw [hname] at hname'
    cases hname'
    rfl
  | .table _, .table _ => rfl
  | .listOf h, .listOf h' => by rw [h.unique h']
termination_by structural h => h

theorem RecordForm.RestatesEach.unique {form : RecordForm} {items items₁ items₂ : List Json} :
    form.RestatesEach items items₁ → form.RestatesEach items items₂ → items₁ = items₂
  | .nil, .nil => rfl
  | .cons h rest, .cons h' rest' => by rw [h.unique h', rest.unique rest']
termination_by structural h => h

theorem RecordForm.Restates.unique {form : RecordForm} {j j₁ j₂ : Json} :
    form.Restates j j₁ → form.Restates j j₂ → j₁ = j₂
  | .intro hgiven h, .intro hgiven' h' => by
    rw [hgiven] at hgiven'
    cases hgiven'
    rw [h.unique h']
termination_by structural h => h

theorem FieldForm.Restates.unique {field : FieldForm} {given value₁ value₂ : Option Json} :
    field.Restates given value₁ → field.Restates given value₂ → value₁ = value₂
  | .kept _ h, .kept _ h' => by rw [h.unique h']
  | .kept hkept _, .leftOut hout => absurd hout hkept
  | .filled h, .filled h' => by
    rw [h] at h'
    cases h'
    rfl
  | .filled h, .leftOut hout => by
    rw [h] at hout
    cases hout
  | .leftOut hout, .kept hkept _ => absurd hout hkept
  | .leftOut hout, .filled h => by
    rw [h] at hout
    cases hout
  | .leftOut _, .leftOut _ => rfl
termination_by structural h => h

theorem FieldForm.RestatesAll.unique {fields : List FieldForm}
    {given written₁ written₂ : Table Json} :
    FieldForm.RestatesAll fields given written₁ →
      FieldForm.RestatesAll fields given written₂ → written₁ = written₂
  | .nil, .nil => rfl
  | .cons h rest, .cons h' rest' => by rw [h.unique h', rest.unique rest']
termination_by structural h => h

end

theorem Content.Restates.ne_null {content : Content} {v v' : Json} (h : content.Restates v v')
    (hv : v ≠ .null) : v' ≠ .null := by
  cases h with
  | anything => exact hv
  | _ => intro h; cases h

theorem Table.get?_optional (key : String) (value : Option Json) (rest : Table Json) (k : String) :
    Table.get? (Json.optional key value ++ rest) k =
      if key = k then value.or (rest.get? k) else rest.get? k := by
  cases value with
  | none => simp [Json.optional]
  | some v => simp [Json.optional, Table.get?]

namespace FieldForm.RestatesAll

variable {fields : List FieldForm} {given written : Table Json}

theorem get?_eq_none {key : String} (h : RestatesAll fields given written)
    (hkey : key ∉ fields.map FieldForm.key) : written.get? key = none := by
  induction fields generalizing written with
  | nil =>
    cases h
    rfl
  | cons field fields ih =>
    cases h with
    | cons _ rest =>
      rw [List.map_cons, List.mem_cons, not_or] at hkey
      rw [Table.get?_optional, if_neg (Ne.symm hkey.1)]
      exact ih rest hkey.2

theorem restates_get? {field : FieldForm} (h : RestatesAll fields given written)
    (hkeys : (fields.map FieldForm.key).Nodup) (hmem : field ∈ fields) :
    field.Restates (given.get? field.key) (written.get? field.key) := by
  induction fields generalizing written with
  | nil => cases hmem
  | cons first fields ih =>
    rw [List.map_cons, List.nodup_cons] at hkeys
    cases h with
    | cons hfirst rest =>
      rw [Table.get?_optional]
      by_cases hfield : field = first
      · subst hfield
        rw [if_pos rfl, rest.get?_eq_none hkeys.1, Option.or_none]
        exact hfirst
      · have hlater : field ∈ fields := (List.mem_cons.1 hmem).resolve_left hfield
        have hne : first.key ≠ field.key := by
          intro he
          exact hkeys.1 (he ▸ List.mem_map_of_mem hlater)
        rw [if_neg hne]
        exact ih rest hkeys.2 hlater

end FieldForm.RestatesAll

variable {α : Type}

structure Content.Carries (content : Content) (read : Json → Option α) (write : α → Json)
    (x : α) : Prop where
  restates : ∀ v, read v = some x → content.Restates v (write x)
  again : ∀ v v', content.Restates v v' → read v = some x → read v' = some x

structure RecordForm.Carries (form : RecordForm) (read : Json → Option α) (write : α → Json)
    (x : α) : Prop where
  restates : ∀ j, read j = some x → form.Restates j (write x)
  again : ∀ j j', form.Restates j j' → read j = some x → read j' = some x

structure FieldForm.Carries (field : FieldForm) (read : Table Json → Option α) (x : α)
    (entry : Option Json) : Prop where
  restates : ∀ given, read given = some x → field.Restates (given.get? field.key) entry
  again : ∀ given written : Table Json,
    field.Restates (given.get? field.key) (written.get? field.key) →
      read given = some x → read written = some x

namespace Content

/-- Only enumerated values and lists may be given in more than one way. -/
theorem carries_of_one_way {content : Content} {read : Json → Option α} {write : α → Json} {x : α}
    (hnames : ∀ names, content ≠ .oneOf names) (hforms : ∀ form, content ≠ .listOf form)
    (hread : ∀ v, read v = some x → content.Restates v (write x)) :
    content.Carries read write x where
  restates := hread
  again v v' h hx := by
    cases h with
    | oneOf => exact absurd rfl (hnames _)
    | listOf => exact absurd rfl (hforms _)
    | _ => exact hx

theorem carries_text (s : String) : text.Carries Json.string? .string s := by
  refine carries_of_one_way nofun nofun ?_
  intro v hread
  cases v <;> cases hread
  exact .text s

theorem carries_flag (b : Bool) : flag.Carries Json.bool? .bool b := by
  refine carries_of_one_way nofun nofun ?_
  intro v hread
  cases v <;> cases hread
  exact .flag b

theorem carries_table (t : Table Json) : table.Carries Json.object? .object t := by
  refine carries_of_one_way nofun nofun ?_
  intro v hread
  cases v <;> cases hread
  exact .table t

theorem carries_anything (j : Json) : anything.Carries some id j := by
  refine carries_of_one_way nofun nofun ?_
  intro v hread
  cases hread
  exact .anything j

theorem carries_count (bits n : Nat) : (count bits).Carries (natOfBits? bits) .nat n := by
  refine carries_of_one_way nofun nofun ?_
  intro v hread
  unfold natOfBits? at hread
  split at hread
  · next value =>
    obtain ⟨hvalue, hn⟩ := Option.ite_none_right_eq_some.1 hread
    obtain ⟨m, rfl⟩ := Int.eq_ofNat_of_zero_le hvalue.1
    cases hn
    have hlt : m < 2 ^ bits := by
      rw [Nat.one_shiftLeft] at hvalue
      exact Int.ofNat_lt.1 hvalue.2
    exact .count hlt
  · cases hread

theorem carries_oneOf {names : List String} {ofName? : String → Option α} {name : α → String}
    (hname : ∀ s x, ofName? s = some x → s = name x) (hmem : ∀ x, name x ∈ names) (x : α) :
    (oneOf names).Carries (fun v => (enumName? v).bind ofName?) (fun x => .string (name x)) x := by
  constructor
  · intro v hread
    obtain ⟨s, hs, hx⟩ := Option.bind_eq_some_iff.1 hread
    have hkind : s = name x := hname s x hx
    exact .oneOf (hkind ▸ hs) (hmem x)
  · intro v v' h hread
    cases h with
    | oneOf hs =>
      rw [hs] at hread
      exact hread

theorem mapM_cons_eq_some {read : Json → Option α} {item : Json} {items : List Json}
    {xs : List α} :
    (item :: items).mapM read = some xs ↔
      ∃ y ys, xs = y :: ys ∧ read item = some y ∧ items.mapM read = some ys := by
  simp only [List.mapM_cons, bind, pure, Option.bind_eq_some_iff, Option.some.injEq]
  grind

section

variable {form : RecordForm} {read : Json → Option α} {write : α → Json} {xs : List α}

theorem restatesEach_of_mapM (h : ∀ x ∈ xs, form.Carries read write x) {items : List Json}
    (hread : items.mapM read = some xs) : form.RestatesEach items (xs.map write) := by
  induction items generalizing xs with
  | nil =>
    cases hread
    exact .nil
  | cons item items ih =>
    obtain ⟨y, ys, rfl, hy, hys⟩ := mapM_cons_eq_some.1 hread
    have hfirst : form.Restates item (write y) := (h y List.mem_cons_self).restates item hy
    exact .cons hfirst (ih (fun x hx => h x (List.mem_cons_of_mem y hx)) hys)

theorem mapM_of_restatesEach (h : ∀ x ∈ xs, form.Carries read write x) {items items' : List Json}
    (heach : form.RestatesEach items items') (hread : items.mapM read = some xs) :
    items'.mapM read = some xs := by
  induction items generalizing items' xs with
  | nil =>
    cases heach
    exact hread
  | cons item items ih =>
    obtain ⟨y, ys, rfl, hy, hys⟩ := mapM_cons_eq_some.1 hread
    cases heach with
    | cons hitem heach =>
      have hfirst := (h y List.mem_cons_self).again _ _ hitem hy
      have hrest := ih (fun x hx => h x (List.mem_cons_of_mem y hx)) heach hys
      exact mapM_cons_eq_some.2 ⟨y, ys, rfl, hfirst, hrest⟩

theorem carries_listOf (h : ∀ x ∈ xs, form.Carries read write x) :
    (listOf form).Carries (fun v => v.array?.bind (List.mapM read))
      (fun xs => .array (xs.map write)) xs := by
  constructor
  · intro v hread
    obtain ⟨items, hitems, hxs⟩ := Option.bind_eq_some_iff.1 hread
    cases v <;> cases hitems
    exact .listOf (restatesEach_of_mapM h hxs)
  · intro v v' hv hread
    cases hv with
    | listOf heach => exact mapM_of_restatesEach h heach hread

end

end Content

namespace FieldForm

variable {read : Json → Option α} {write : α → Json} {key : String} {content : Content}

theorem carries_required {x : α} (h : content.Carries read write x) :
    FieldForm.Carries ⟨key, .required, content⟩ (Field.required read · key) x
      (some (write x)) := by
  constructor
  · intro given hread
    obtain ⟨v, hv, hx⟩ := Option.bind_eq_some_iff.1 hread
    rw [hv]
    exact .kept id (h.restates v hx)
  · intro given written hfield hread
    obtain ⟨v, hv, hx⟩ := Option.bind_eq_some_iff.1 hread
    rw [hv] at hfield
    apply Option.bind_eq_some_iff.2
    generalize written.get? key = entry at hfield
    cases hfield with
    | kept _ hcontent => exact ⟨_, rfl, h.again v _ hcontent hx⟩
    | leftOut hout => cases hout

theorem optional_leavesOut_iff {v : Json} : Presence.optional.LeavesOut (some v) ↔ v = .null := by
  cases v <;> simp [Presence.LeavesOut]

theorem optional_eq_some {given : Table Json} {x : Option α} :
    Field.optional read given key = some x ↔
      (Presence.optional.LeavesOut (given.get? key) ∧ x = none) ∨
      ∃ v y, given.get? key = some v ∧ v ≠ .null ∧ read v = some y ∧ x = some y := by
  unfold Field.optional
  generalize given.get? key = entry
  cases entry with
  | none => simp [Presence.LeavesOut, eq_comm]
  | some v =>
    by_cases hv : v = .null
    · subst hv
      simp [Presence.LeavesOut, eq_comm]
    · simp [optional_leavesOut_iff, hv, eq_comm]

theorem carries_optional {x : Option α} (h : ∀ y ∈ x, content.Carries read write y) :
    FieldForm.Carries ⟨key, .optional, content⟩ (Field.optional read · key) x
      (x.map write) := by
  constructor
  · intro given hread
    obtain ⟨hout, rfl⟩ | ⟨v, y, hv, hnull, hy, rfl⟩ := optional_eq_some.1 hread
    · exact .leftOut hout
    · rw [hv]
      have hkept : ¬ Presence.optional.LeavesOut (some v) := mt optional_leavesOut_iff.1 hnull
      exact .kept hkept ((h y rfl).restates v hy)
  · intro given written hfield hread
    apply optional_eq_some.2
    obtain ⟨hout, rfl⟩ | ⟨v, y, hv, hnull, hy, rfl⟩ := optional_eq_some.1 hread
    · left
      generalize given.get? key = entry at hfield hout
      generalize written.get? key = entry' at hfield
      cases hfield with
      | kept hkept => exact absurd hout hkept
      | filled hdefault => cases hdefault
      | leftOut => exact ⟨trivial, rfl⟩
    · right
      rw [hv] at hfield
      generalize written.get? key = entry' at hfield
      cases hfield with
      | kept _ hcontent =>
        exact ⟨_, y, rfl, hcontent.ne_null hnull, (h y rfl).again v _ hcontent hy, rfl⟩
      | leftOut hout => exact absurd (optional_leavesOut_iff.1 hout) hnull

theorem withDefault_eq_some {given : Table Json} {default x : α} :
    Field.withDefault default read given key = some x ↔
      (given.get? key = none ∧ x = default) ∨ ∃ v, given.get? key = some v ∧ read v = some x := by
  unfold Field.withDefault
  cases given.get? key <;> simp [eq_comm]

theorem carries_filled {v₀ : Json} {default x : α} (h : content.Carries read write x)
    (hread : read v₀ = some default) (hwrite : write default = v₀) :
    FieldForm.Carries ⟨key, .filled v₀, content⟩ (Field.withDefault default read · key) x
      (some (write x)) := by
  constructor
  · intro given hx
    obtain ⟨hnone, rfl⟩ | ⟨v, hv, hx⟩ := withDefault_eq_some.1 hx
    · rw [hnone, hwrite]
      exact .filled rfl
    · rw [hv]
      exact .kept id (h.restates v hx)
  · intro given written hfield hx
    apply withDefault_eq_some.2
    right
    obtain ⟨hnone, rfl⟩ | ⟨v, hv, hx⟩ := withDefault_eq_some.1 hx
    · rw [hnone] at hfield
      generalize written.get? key = entry' at hfield
      cases hfield with
      | filled hfilled =>
        cases hfilled
        exact ⟨v₀, rfl, hread⟩
      | leftOut hout => cases hout
    · rw [hv] at hfield
      generalize written.get? key = entry' at hfield
      cases hfield with
      | kept _ hcontent => exact ⟨_, rfl, h.again v _ hcontent hx⟩
      | leftOut hout => cases hout

theorem sparse_leavesOut {entry : Option Json} (h : Presence.sparse.LeavesOut entry) :
    entry = none ∨ entry = some (.array []) := by
  unfold Presence.LeavesOut at h
  split at h <;> first | exact .inl rfl | exact .inr rfl | simp_all

theorem carries_sparse {form : RecordForm} {xs : List α}
    (h : ∀ x ∈ xs, form.Carries read write x) :
    FieldForm.Carries ⟨key, .sparse, .listOf form⟩
      (Field.withDefault [] (fun v => v.array?.bind (List.mapM read)) · key) xs
      (if xs.isEmpty then none else some (.array (xs.map write))) := by
  constructor
  · intro given hread
    obtain ⟨hnone, rfl⟩ | ⟨v, hv, hx⟩ := withDefault_eq_some.1 hread
    · rw [hnone]
      exact .leftOut trivial
    · rw [hv]
      have hlist := (Content.carries_listOf h).restates v hx
      cases hlist with
      | @listOf _ items _ heach =>
        cases items with
        | nil =>
          cases hx
          exact .leftOut trivial
        | cons item items =>
          have hsome : xs ≠ [] := by
            intro he
            rw [he] at heach
            cases heach
          rw [if_neg (mt List.isEmpty_iff.1 hsome)]
          exact .kept id (.listOf heach)
  · intro given written hfield hread
    apply withDefault_eq_some.2
    generalize written.get? key = entry' at hfield
    obtain ⟨hnone, rfl⟩ | ⟨v, hv, hx⟩ := withDefault_eq_some.1 hread
    · rw [hnone] at hfield
      cases hfield with
      | filled hdefault => cases hdefault
      | leftOut => exact .inl ⟨rfl, rfl⟩
    · rw [hv] at hfield
      cases hfield with
      | kept _ hcontent => exact .inr ⟨_, rfl, (Content.carries_listOf h).again v _ hcontent hx⟩
      | leftOut hout =>
        obtain hv | hv := sparse_leavesOut hout
        · cases hv
        · cases hv
          cases hx
          exact .inl ⟨rfl, rfl⟩

end FieldForm

/--
The fields of a record, each carried. A reader that takes what they take reads a table of them, and
`written` is the table that their writers give.
-/
inductive FieldForm.CarriesAll : List FieldForm → (Table Json → Prop) → Table Json → Prop
  | nil : CarriesAll [] (fun _ => True) []
  | cons {field : FieldForm} {fields : List FieldForm} {α : Type} {read : Table Json → Option α}
      {x : α} {entry : Option Json} {reads : Table Json → Prop} {written : Table Json}
      (h : field.Carries read x entry) (rest : CarriesAll fields reads written) :
      CarriesAll (field :: fields) (fun given => read given = some x ∧ reads given)
        (Json.optional field.key entry ++ written)

namespace FieldForm.CarriesAll

variable {fields : List FieldForm} {reads : Table Json → Prop} {written given : Table Json}

theorem restates (h : CarriesAll fields reads written) (hgiven : reads given) :
    RestatesAll fields given written := by
  induction h with
  | nil => exact .nil
  | cons hfield _ ih => exact .cons (hfield.restates given hgiven.1) (ih hgiven.2)

theorem again {given' : Table Json} (h : CarriesAll fields reads written)
    (hfields : ∀ field ∈ fields, field.Restates (given.get? field.key) (given'.get? field.key))
    (hgiven : reads given) : reads given' := by
  induction h with
  | nil => trivial
  | cons hfield _ ih =>
    have hfirst := hfield.again given given' (hfields _ List.mem_cons_self) hgiven.1
    have hrest := ih (fun field hmem => hfields field (List.mem_cons_of_mem _ hmem)) hgiven.2
    exact ⟨hfirst, hrest⟩

end FieldForm.CarriesAll

theorem RecordForm.keys_nodup (form : RecordForm) : form.keys.Nodup := by
  cases form <;> decide

theorem RecordForm.carries_of_fields {form : RecordForm} {read : Json → Option α}
    {write : α → Json} {x : α} {reads : Table Json → Prop} {written : Table Json}
    (h : FieldForm.CarriesAll form.fields reads written) (hwrite : write x = .object written)
    (hread : ∀ j, read j = some x ↔ ∃ given, record? form.keys j = some given ∧ reads given) :
    form.Carries read write x := by
  constructor
  · intro j hj
    obtain ⟨given, hgiven, hreads⟩ := (hread j).1 hj
    rw [hwrite]
    exact .intro hgiven (h.restates hreads)
  · intro j j' hrestates hj
    obtain ⟨given, hgiven, hreads⟩ := (hread j).1 hj
    cases hrestates with
    | @intro _ _ given' written' hgiven' hall =>
      obtain rfl : given' = given := Option.some.inj (hgiven'.symm.trans hgiven)
      have hagain : reads written' :=
        h.again (fun field hmem => hall.restates_get? form.keys_nodup hmem) hreads
      exact (hread _).2 ⟨written', rfl, hagain⟩

end PageFlow
