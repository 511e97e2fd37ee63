import PageFlow.Action.Encode
import PageFlow.Proofs.Action.Form

namespace PageFlow

open Json (record? enumName? natOfBits? Field.required Field.optional Field.withDefault)

theorem ParamType.name_of_ofName? (s : String) (t : ParamType) (h : ofName? s = some t) :
    s = t.name := by
  unfold ofName? at h
  split at h <;> cases h <;> rfl

theorem StepKind.name_of_ofName? (s : String) (k : StepKind) (h : ofName? s = some k) :
    s = k.name := by
  unfold ofName? at h
  split at h <;> cases h <;> rfl

theorem OnError.name_of_ofName? (s : String) (o : OnError) (h : ofName? s = some o) :
    s = o.name := by
  unfold ofName? at h
  split at h <;> cases h <;> rfl

theorem ParamSpec.ofJson?_eq_some (p : ParamSpec) (j : Json) :
    ofJson? j = some p ↔ ∃ r, record? fieldNames j = some r ∧
      Field.required Json.string? r "name" = some p.name ∧
      Field.withDefault .any (fun v => (enumName? v).bind ParamType.ofName?) r "type" =
        some p.type ∧
      Field.withDefault true Json.bool? r "required" = some p.required ∧
      Field.optional some r "default" = some p.default ∧
      Field.optional Json.string? r "description" = some p.description ∧ True := by
  obtain ⟨name, type, required, default, description⟩ := p
  simp only [ofJson?, Option.bind_eq_bind, Option.bind_eq_some_iff, Option.pure_def,
    Option.some.injEq, mk.injEq, and_true]
  grind

theorem Check.ofJson?_eq_some (c : Check) (j : Json) :
    ofJson? j = some c ↔ ∃ r, record? fieldNames j = some r ∧
      Field.required Json.string? r "condition" = some c.condition ∧
      Field.optional Json.string? r "message" = some c.message ∧ True := by
  obtain ⟨condition, message⟩ := c
  simp only [ofJson?, Option.bind_eq_bind, Option.bind_eq_some_iff, Option.pure_def,
    Option.some.injEq, mk.injEq, and_true]
  grind

namespace Step

theorem listOfJson?_eq_mapM (items : List Json) : listOfJson? items = items.mapM ofJson? := by
  induction items with
  | nil => rfl
  | cons item rest ih => simp only [listOfJson?, ih, List.mapM_cons]

theorem listToJson_eq_map (steps : List Step) : listToJson steps = steps.map toJson := by
  induction steps with
  | nil => rfl
  | cons step rest ih => rw [listToJson, ih, List.map_cons]

theorem fallbackOfFields?_eq (fields : Table Json) :
    fallbackOfFields? fields =
      Field.withDefault [] (fun v => v.array?.bind (List.mapM ofJson?)) fields "fallback" := by
  induction fields with
  | nil => rfl
  | cons entry rest ih =>
    obtain ⟨key, value⟩ := entry
    by_cases hkey : key = "fallback"
    · cases value <;>
        simp [fallbackOfFields?, Field.withDefault, Table.get?, hkey, Json.array?,
          listOfJson?_eq_mapM]
    · unfold fallbackOfFields?
      rw [if_neg hkey, ih]
      simp [Field.withDefault, Table.get?, hkey]

theorem fallbackOfItems?_eq (names : List String) (hnames : "fallback" ∉ names)
    (items : List Json) :
    fallbackOfItems? names.length items =
      Field.withDefault [] (fun v => v.array?.bind (List.mapM ofJson?))
        ((names ++ ["fallback"]).zip items) "fallback" := by
  induction names generalizing items with
  | nil =>
    cases items with
    | nil => rfl
    | cons value rest =>
      cases value <;>
        simp [fallbackOfItems?, Field.withDefault, Table.get?, Json.array?, listOfJson?_eq_mapM]
  | cons name names ih =>
    rw [List.mem_cons, not_or] at hnames
    cases items with
    | nil => rfl
    | cons value rest =>
      have hrest := ih hnames.2 rest
      simpa [fallbackOfItems?, Field.withDefault, Table.get?, Ne.symm hnames.1] using hrest

theorem ofJson?_eq (j : Json) :
    ofJson? j = (record? fieldNames j).bind fun r =>
      (Field.withDefault [] (fun v => v.array?.bind (List.mapM ofJson?)) r "fallback").bind
        (ofFields? r) := by
  cases j with
  | object fields =>
    rw [ofJson?, fallbackOfFields?_eq]
    rfl
  | array items =>
    have hitems := fallbackOfItems?_eq ["action", "args", "when", "output", "timeout", "retry",
      "retryDelay", "onError"] (by decide) items
    rw [ofJson?, show fallbackOfItems? 8 items = _ from hitems, record?]
    split <;> rfl
  | _ => rw [ofJson?] <;> simp [record?]

theorem ofJson?_eq_some (s : Step) (j : Json) :
    ofJson? j = some s ↔ ∃ r, record? fieldNames j = some r ∧
      Field.required (fun v => (enumName? v).bind StepKind.ofName?) r "action" = some s.kind ∧
      Field.withDefault [] Json.object? r "args" = some s.args ∧
      Field.optional Json.string? r "when" = some s.condition ∧
      Field.optional Json.string? r "output" = some s.output ∧
      Field.optional (natOfBits? 64) r "timeout" = some s.timeout ∧
      Field.withDefault 0 (natOfBits? 32) r "retry" = some s.retries ∧
      Field.withDefault defaultRetryDelay (natOfBits? 64) r "retryDelay" = some s.retryDelay ∧
      Field.withDefault .abort (fun v => (enumName? v).bind OnError.ofName?) r "onError" =
        some s.onError ∧
      Field.withDefault [] (fun v => v.array?.bind (List.mapM ofJson?)) r "fallback" =
        some s.fallback ∧ True := by
  obtain ⟨kind, args, condition, output, timeout, retries, retryDelay, onError, fallback⟩ := s
  simp only [ofJson?_eq, ofFields?, Option.bind_eq_bind, Option.bind_eq_some_iff, Option.pure_def,
    Option.some.injEq, mk.injEq, and_true]
  grind

end Step

theorem Action.ofJson?_eq_some (a : Action) (j : Json) :
    ofJson? j = some a ↔ ∃ r, record? fieldNames j = some r ∧
      Field.required Json.string? r "name" = some a.name ∧
      Field.withDefault "" Json.string? r "namespace" = some a.space ∧
      Field.optional Json.string? r "description" = some a.description ∧
      Field.withDefault [] (fun v => v.array?.bind (List.mapM ParamSpec.ofJson?)) r "params" =
        some a.params ∧
      Field.required (fun v => v.array?.bind (List.mapM Step.ofJson?)) r "steps" = some a.steps ∧
      Field.optional Json.object? r "returns" = some a.returns ∧
      Field.withDefault [] (fun v => v.array?.bind (List.mapM Check.ofJson?)) r "verify" =
        some a.checks ∧ True := by
  have hsteps : Step.listOfJson? = fun items => items.mapM Step.ofJson? :=
    funext Step.listOfJson?_eq_mapM
  obtain ⟨name, space, description, params, steps, returns, checks⟩ := a
  simp only [ofJson?, hsteps, Option.bind_eq_bind, Option.bind_eq_some_iff, Option.pure_def,
    Option.some.injEq, mk.injEq, and_true]
  grind

open FieldForm (carries_required carries_optional carries_filled carries_sparse)
open Content (carries_text carries_flag carries_table carries_anything carries_count carries_oneOf
  carries_listOf)

theorem ParamSpec.carries (p : ParamSpec) : RecordForm.param.Carries ofJson? toJson p := by
  have hfields : FieldForm.CarriesAll RecordForm.param.fields _ _ :=
    .cons (carries_required (carries_text p.name)) <|
    .cons (carries_filled
      (carries_oneOf ParamType.name_of_ofName? (fun t => by cases t <;> decide) p.type) rfl rfl) <|
    .cons (carries_filled (carries_flag p.required) rfl rfl) <|
    .cons (carries_optional fun y (_ : y ∈ p.default) => carries_anything y) <|
    .cons (carries_optional fun y (_ : y ∈ p.description) => carries_text y) .nil
  apply RecordForm.carries_of_fields hfields
  · simp [toJson, Json.optional]
  · exact p.ofJson?_eq_some

theorem Check.carries (c : Check) : RecordForm.check.Carries ofJson? toJson c := by
  have hfields : FieldForm.CarriesAll RecordForm.check.fields _ _ :=
    .cons (carries_required (carries_text c.condition)) <|
    .cons (carries_optional fun y (_ : y ∈ c.message) => carries_text y) .nil
  apply RecordForm.carries_of_fields hfields
  · simp [toJson, Json.optional]
  · exact c.ofJson?_eq_some

theorem Step.carries_of_fallback (s : Step)
    (h : ∀ t ∈ s.fallback, RecordForm.step.Carries ofJson? toJson t) :
    RecordForm.step.Carries ofJson? toJson s := by
  have hfields : FieldForm.CarriesAll RecordForm.step.fields _ _ :=
    .cons (carries_required
      (carries_oneOf StepKind.name_of_ofName? (fun k => by cases k <;> decide) s.kind)) <|
    .cons (carries_filled (carries_table s.args) rfl rfl) <|
    .cons (carries_optional fun y (_ : y ∈ s.condition) => carries_text y) <|
    .cons (carries_optional fun y (_ : y ∈ s.output) => carries_text y) <|
    .cons (carries_optional fun y (_ : y ∈ s.timeout) => carries_count 64 y) <|
    .cons (carries_filled (carries_count 32 s.retries) rfl rfl) <|
    .cons (carries_filled (carries_count 64 s.retryDelay) rfl rfl) <|
    .cons (carries_filled
      (carries_oneOf OnError.name_of_ofName? (fun o => by cases o <;> decide) s.onError) rfl rfl) <|
    .cons (carries_sparse h) .nil
  apply RecordForm.carries_of_fields hfields
  · obtain ⟨kind, args, condition, output, timeout, retries, retryDelay, onError, fallback⟩ := s
    cases fallback <;> simp [toJson, Json.optional, listToJson_eq_map]
  · exact s.ofJson?_eq_some

/-- By induction on the steps with the fallback list of each. -/
theorem Step.carries (steps : List Step) :
    ∀ s ∈ steps, RecordForm.step.Carries ofJson? toJson s := by
  induction steps using listInduction with
  | nil => exact nofun
  | cons step rest ihFallback ihRest =>
    intro s hs
    obtain rfl | hs := List.mem_cons.1 hs
    · exact s.carries_of_fallback ihFallback
    · exact ihRest s hs

theorem Action.carries (a : Action) : RecordForm.action.Carries ofJson? toJson a := by
  have hfields : FieldForm.CarriesAll RecordForm.action.fields _ _ :=
    .cons (carries_required (carries_text a.name)) <|
    .cons (carries_filled (carries_text a.space) rfl rfl) <|
    .cons (carries_optional fun y (_ : y ∈ a.description) => carries_text y) <|
    .cons (carries_filled (carries_listOf fun p (_ : p ∈ a.params) => p.carries) rfl rfl) <|
    .cons (carries_required (carries_listOf (Step.carries a.steps))) <|
    .cons (carries_optional fun y (_ : y ∈ a.returns) => carries_table y) <|
    .cons (carries_sparse fun c (_ : c ∈ a.checks) => c.carries) .nil
  apply RecordForm.carries_of_fields hfields
  · rw [toJson, Step.listToJson_eq_map]
    cases a.checks <;> simp [Json.optional]
  · exact a.ofJson?_eq_some

/--
What is written for an action that is read from JSON is the one restatement of the JSON, and the
same action is read from it. So it is written in full once: written again it stays as it is.
-/
theorem Action.ofJson?_toJson {j : Json} {a : Action} (h : ofJson? j = some a) :
    (∀ j', RecordForm.action.Restates j j' ↔ j' = a.toJson) ∧ ofJson? a.toJson = some a ∧
      (ofJson? a.toJson).map toJson = some a.toJson := by
  have hrestates : RecordForm.action.Restates j a.toJson := a.carries.restates j h
  have hagain : ofJson? a.toJson = some a := a.carries.again j a.toJson hrestates h
  have hunique : ∀ j', RecordForm.action.Restates j j' ↔ j' = a.toJson := by
    intro j'
    constructor
    · intro h'
      exact h'.unique hrestates
    · intro he
      exact he ▸ hrestates
  exact ⟨hunique, hagain, by rw [hagain, Option.map_some]⟩

/-- Records as lists, kinds as objects, nulls, an unknown field and a fallback inside a fallback. -/
theorem Action.ofJson?_toJson_nested :
    let inner : Step := { kind := .eval, args := [("script", .string "retry()")], retries := 2 }
    let outer : Step :=
      { kind := .click, args := [("selector", .string "#go")], timeout := some 500,
        onError := .fallback, fallback := [{ kind := .wait, fallback := [inner] }] }
    let given : Json := .object [
      ("description", .null), ("name", .string "pay"), ("owner", .string "shop"),
      ("params", .array [.array [.string "sum", .string "number", .bool false, .null]]),
      ("steps", .array [.object [
        ("action", .object [("click", .null)]), ("args", .object [("selector", .string "#go")]),
        ("fallback", .array [.array [.string "wait", .object [], .null, .null, .null, .nat 0,
          .nat 1000, .string "abort", .array [.object [("action", .string "eval"),
            ("args", .object [("script", .string "retry()")]), ("retry", .nat 2)]]]]),
        ("onError", .string "fallback"), ("timeout", .nat 500), ("when", .null)]]),
      ("verify", .array [])]
    let a : Action :=
      { name := "pay", params := [{ name := "sum", type := .number, required := false }],
        steps := [outer] }
    ofJson? given = some a ∧ RecordForm.action.Restates given a.toJson ∧
      ofJson? a.toJson = some a := by
  intro inner outer given a
  have hread : ofJson? given = some a := rfl
  have h := Action.ofJson?_toJson hread
  exact ⟨hread, (h.1 _).2 rfl, h.2.1⟩

end PageFlow
