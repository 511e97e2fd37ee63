import PageFlow.Page.Scripted
import PageFlow.Proofs.Json.Integers
import PageFlow.Proofs.Path
import PageFlow.Proofs.Run.Recall
import PageFlow.Proofs.Run.Report
import PageFlow.Proofs.Table
import PageFlow.Proofs.Template.Reference

namespace PageFlow

def Note.record? (steps : List Step) (n : Note) : Option (String × Json) := do
  let entry ← n.news.entry?
  let step ← Step.at? steps n.place entry.index
  let name ← step.output
  let value ← entry.outcome.value?
  return (name, value)

def recordsOf (steps : List Step) (ns : List Note) : List (String × Json) :=
  ns.filterMap (Note.record? steps)

theorem Note.write?_eq (steps : List Step) (n : Note) :
    n.write? steps = (n.record? steps).map fun r => (r.1, .ofJson r.2) := by
  simp only [write?, record?, bind, pure, Option.map_bind, Function.comp_def, Option.map_some]

theorem writesOf_eq (steps : List Step) (ns : List Note) :
    writesOf steps ns = (recordsOf steps ns).map fun r => (r.1, .ofJson r.2) := by
  rw [writesOf, recordsOf, List.map_filterMap]
  congr 1
  funext n
  exact n.write?_eq steps

theorem get?_of_latest {steps : List Step} {ns : List Note} {name : String} {j : Json}
    (h : Table.Latest (recordsOf steps ns) name j) :
    (Table.ofList (writesOf steps ns)).get? name = some (.ofJson j) := by
  rw [Table.get?_ofList, writesOf_eq]
  exact h.map Value.ofJson

section

variable {vars : Variables} {name : String} {value : Value}

theorem Path.resolve_scope (scope : Scope) (vars : Variables) :
    resolve scope.name vars = .ok (.record (vars.scope scope)) := by
  cases scope <;> rfl

theorem Path.resolve_entry {scope : Scope} (hdot : '.' ∉ name.toList) (hallowed : name ∉ forbidden)
    (h : (vars.scope scope).get? name = some value) :
    resolve (scope.name ++ "." ++ name) vars = .ok value := by
  rw [resolve_append (resolve_scope scope vars) hdot hallowed, step, h]
  rfl

/-- A text that is one reference to a recorded value. -/
structure RefersTo (text name : String) : Prop where
  pure : pureReference? text = some ("steps." ++ name)
  dotless : '.' ∉ name.toList
  allowed : name ∉ Path.forbidden

theorem RefersTo.resultOf {text : String} (h : RefersTo text name)
    (hvalue : vars.steps.get? name = some value) :
    resultOf vars (.string text) = .ok value.toJson := by
  have hresolve : Path.resolve ("steps." ++ name) vars = .ok value :=
    @Path.resolve_entry vars name value .steps h.dotless h.allowed hvalue
  have hpure : resolvePure vars text = .ok (some value) := by
    rw [resolvePure, h.pure]
    simp only [hresolve]
  rw [PageFlow.resultOf, hpure]
  rfl

/-- The reference as it is written, for a name without braces and without white space at its end. -/
theorem RefersTo.written {name : List Char} (hdot : '.' ∉ name)
    (hallowed : String.ofList name ∉ Path.forbidden) (hopen : ¬ Template.Marked name)
    (hclose : '\x7d' ∉ name) (hend : ∀ c ∈ name.getLast?, ¬ Text.isBlank c) :
    RefersTo (String.ofList ('$' :: '\x7b' :: ("steps.".toList ++ name) ++ ['\x7d']))
      (String.ofList name) := by
  have htrim : Text.trim ("steps.".toList ++ name) = "steps.".toList ++ name := by
    cases name using List.reverseRecOn with
    | nil => decide
    | append_singleton start last =>
      have hlast : ¬ Text.isBlank last := hend last (by simp)
      have hframed := @Text.trim_framed [] ("teps.".toList ++ start) [] 's' last nofun (by decide)
        hlast nofun
      simpa using hframed
  have hsteps : '\x7d' ∉ "steps.".toList ++ name := by simpa using hclose
  have hmarked : ¬ Template.Marked ("steps.".toList ++ name) := by
    simpa [Template.marked_cons] using hopen
  have hblank : ¬ ∀ c ∈ "steps.".toList ++ name, Text.isBlank c := by
    intro hall
    exact absurd (hall 's' (by simp)) (by decide)
  refine ⟨?_, by simpa using hdot, hallowed⟩
  rw [Template.pureReference?_written hmarked hsteps hblank, htrim, String.ofList_append,
    String.ofList_toList]

theorem get?_resultFields {form fields : Table Json} (h : resultFields vars form = .ok fields)
    {key : String} {entry : Json} (hentry : form.get? key = some entry) :
    ∃ result, resultOf vars entry = .ok result ∧ fields.get? key = some result := by
  induction form generalizing fields with
  | nil => cases hentry
  | cons first rest ih =>
    obtain ⟨k, template⟩ := first
    rw [resultFields] at h
    cases hfirst : resultOf vars template with
    | error e =>
      rw [hfirst] at h
      cases h
    | ok value =>
      cases hrest : resultFields vars rest with
      | error e =>
        rw [hfirst, hrest] at h
        cases h
      | ok others =>
        rw [hfirst, hrest] at h
        cases h
        rw [Table.get?] at hentry ⊢
        split at hentry
        · next hk =>
          cases hentry
          exact ⟨value, hfirst, if_pos hk⟩
        · next hk =>
          rw [if_neg hk]
          exact ih hrest hentry

end

/--
What a run of an action gives back of integer JSON that one of its steps recorded, where no later
step records another value under the name.
-/
structure Report.GivesBack (report : Report) (a : Action) (es : List Event) (j : Json) : Prop where
  kept : (Value.ofJson j).toJson = j ↔ j.Small
  settled : (Value.ofJson j).toJson = j.mapNumbers Numeral.settled
  /-- Without a result form, the value is among the recorded ones. -/
  whole : ∀ name data, Table.Latest (recordsOf a.steps (notesOf es)) name j →
    report.result = .ok data → a.returns = none →
      ∃ fields : Table Json, data = .object fields ∧ fields.get? name = some (Value.ofJson j).toJson
  /-- A reference in the result form stands for the value. -/
  referenced : ∀ name data form key text, Table.Latest (recordsOf a.steps (notesOf es)) name j →
    report.result = .ok data → a.returns = some form → form.get? key = some (.string text) →
      RefersTo text name → ∃ fields : Table Json, data = .object fields ∧
        fields.get? key = some (Value.ofJson j).toJson

theorem Action.Yields.get?_whole {a : Action} {limits : Limits} {frame : Frame}
    {scope : Table Value} {data : Json} (h : a.Yields limits frame scope data)
    (hreturns : a.returns = none) {name : String} {value : Value}
    (hvalue : scope.get? name = some value) :
    ∃ fields : Table Json, data = .object fields ∧ fields.get? name = some value.toJson := by
  refine ⟨_, h.whole hreturns, ?_⟩
  rw [Table.get?_mapValues, hvalue]
  rfl

theorem Action.Yields.get?_referenced {a : Action} {limits : Limits} {frame : Frame}
    {scope : Table Value} {data : Json} (h : a.Yields limits frame scope data) {form : Table Json}
    (hreturns : a.returns = some form) {key text name : String} {value : Value}
    (hentry : form.get? key = some (.string text)) (href : RefersTo text name)
    (hvalue : scope.get? name = some value) :
    ∃ fields : Table Json, data = .object fields ∧ fields.get? key = some value.toJson := by
  obtain ⟨fields, hfields, rfl⟩ := h.formed form hreturns
  obtain ⟨result, hresult, hget⟩ := get?_resultFields hfields hentry
  cases (href.resultOf hvalue).symm.trans hresult
  exact ⟨fields, rfl, hget⟩

variable {σ : Type}

theorem execute_yields (settings : Settings) (page : Page σ) (state : σ)
    (cancellation : Cancellation) (a : Action) (params env : Json) {data : Json}
    (h : (execute settings page state cancellation a params env).1.result = .ok data) :
    ∃ frame, a.Yields settings.limits frame (.ofList (writesOf a.steps
      (notesOf (eventsOf (history settings page state cancellation a params env))))) data := by
  have hgoes := execute_goes settings page state cancellation a params env
  cases hgoes with
  | unbound root events reported =>
    rw [reported] at h
    cases h
  | @ended frame outcome root course result trace =>
    obtain rfl := result.symm.trans h
    exact ⟨frame, (course.recalls a frame course.tells.1).yields data rfl⟩
  | interrupted root course stops ledger result trace => cases result.symm.trans h

/--
Integer JSON that a step of a run records comes back as it was, without a result form or through a
reference, exactly if all its integers are below the limit for whole numbers. Every other integer
comes back as the binary64 number nearest to it, and what is around it as it was.
-/
theorem execute_givesBack (settings : Settings) (page : Page σ) (state : σ)
    (cancellation : Cancellation) (a : Action) (params env j : Json) (h : j.Integral) :
    (execute settings page state cancellation a params env).1.GivesBack a
      (eventsOf (history settings page state cancellation a params env)) j := by
  constructor
  case kept => exact h.toJson_eq_self
  case settled => exact h.toJson_eq
  case whole =>
    intro name data hlatest hdata hreturns
    obtain ⟨frame, hyields⟩ := execute_yields settings page state cancellation a params env hdata
    exact hyields.get?_whole hreturns (get?_of_latest hlatest)
  case referenced =>
    intro name data form key text hlatest hdata hreturns hentry href
    obtain ⟨frame, hyields⟩ := execute_yields settings page state cancellation a params env hdata
    exact hyields.get?_referenced hreturns hentry href (get?_of_latest hlatest)

theorem Step.attemptAll_once {step : Step} (h : step.retries = 0) (limits : Limits) (enter : Enter)
    (frame : Frame) (index : Nat) (args : Table Json) :
    step.attemptAll limits enter frame index args = (do
      Routine.note (.attempted index 1)
      let (result, nested) ←
        (step.bounded limits enter frame index args).collect (.attempt index 1) []
      return ⟨result, 1, nested⟩) := by
  have hlast : (Backoff.ofStep step limits.maxRetryDelay).maxAttempts - 1 = 0 := by
    simp [Backoff.maxAttempts, Backoff.ofStep, h]
  rw [attemptAll]
  dsimp only
  rw [hlast, attempts]
  congr 1
  funext _
  congr 1
  funext ended
  obtain ⟨result, nested⟩ := ended
  cases result with
  | ok value => rfl
  | error e => simp

def tally : Action where
  name := "tally"
  steps := [{ kind := .eval, args := [("script", .string "n")], output := some "n" }]

/-- The same action with a result form. -/
def tallyUp : Action :=
  { tally with returns := some [("total", .string "$\x7bsteps.n\x7d")] }

def counting (j : Json) : Script where
  evaluations := [("n", j)]

theorem tally_records (j : Json) :
    recordsOf tally.steps (notesOf (eventsOf
      (history {} Script.page (counting j) {} tally .null .null))) = [("n", j)] := by
  simp only [history, Frame.root, Action.run, Action.body, tally, Step.runAll, Step.run,
    Step.lifecycle, Step.execute, Step.attemptAll_once]
  rfl

theorem tally_result (j : Json) :
    (execute {} Script.page (counting j) {} tally .null .null).1.result =
      .ok (.object [("n", (Value.ofJson j).toJson)]) := by
  simp only [execute, Frame.root, Action.run, Action.body, tally, Step.runAll, Step.run,
    Step.lifecycle, Step.execute, Step.attemptAll_once]
  rfl

theorem tallyUp_refersTo : RefersTo "$\x7bsteps.n\x7d" "n" := by
  have hopen : ¬ Template.Marked ['n'] := by simp [Template.marked_cons, Template.not_marked_nil]
  have hend : ∀ c ∈ ['n'].getLast?, ¬ Text.isBlank c := by
    intro c hc
    obtain rfl : 'n' = c := Option.some.inj hc
    decide
  exact @RefersTo.written ['n'] (by decide) (by decide) hopen (by decide) hend

theorem tallyUp_records (j : Json) :
    recordsOf tallyUp.steps (notesOf (eventsOf
      (history {} Script.page (counting j) {} tallyUp .null .null))) = [("n", j)] := by
  simp only [history, Frame.root, Action.run, Action.body, tallyUp, tally, Step.runAll, Step.run,
    Step.lifecycle, Step.execute, Step.attemptAll_once, Action.conclude, Action.result,
    resultFields, resultOf, resolvePure, tallyUp_refersTo.pure]
  rfl

theorem tallyUp_result (j : Json) :
    (execute {} Script.page (counting j) {} tallyUp .null .null).1.result =
      .ok (.object [("total", (Value.ofJson j).toJson)]) := by
  simp only [execute, Frame.root, Action.run, Action.body, tallyUp, tally, Step.runAll, Step.run,
    Step.lifecycle, Step.execute, Step.attemptAll_once]
  rfl

/-- The largest count that comes back, inside of other JSON. -/
theorem execute_givesBack_tally :
    let j : Json := .array [.int 8999999999999999, .object [("a", .null), ("b", .int (-5))]]
    j.Integral ∧ (∃ fields : Table Json, fields.get? "n" = some j ∧
        (execute {} Script.page (counting j) {} tally .null .null).1.result =
          .ok (.object fields)) ∧
      ∃ fields : Table Json, fields.get? "total" = some j ∧
        (execute {} Script.page (counting j) {} tallyUp .null .null).1.result =
          .ok (.object fields) := by
  intro j
  have hintegral : j.Integral := by
    simp [j, Json.Integral, Json.numbers, Json.numbersOfItems, Json.numbersOfFields, Json.int,
      Numeral.IsInteger]
  have hsmall : j.Small := by
    simp [j, Json.Small, Json.numbers, Json.numbersOfItems, Json.numbersOfFields, Json.int,
      Value.wholeLimit]
  have hgives := execute_givesBack {} Script.page (counting j) {} tally .null .null j hintegral
  have hgivesUp := execute_givesBack {} Script.page (counting j) {} tallyUp .null .null j hintegral
  have hlatest : Table.Latest [("n", j)] "n" j := ⟨[], [], rfl, nofun⟩
  obtain ⟨whole, hwhole, hn⟩ :=
    hgives.whole "n" _ (tally_records j ▸ hlatest) (tally_result j) rfl
  obtain ⟨formed, hformed, htotal⟩ :=
    hgivesUp.referenced "n" _ _ "total" _ (tallyUp_records j ▸ hlatest) (tallyUp_result j) rfl rfl
      tallyUp_refersTo
  rw [hgives.kept.2 hsmall] at hn htotal
  exact ⟨hintegral, ⟨whole, hn, hwhole ▸ tally_result j⟩, formed, htotal,
    hformed ▸ tallyUp_result j⟩

/-- A count of 54 bits comes back as a number of another kind, and as another number. -/
theorem tally_rounded :
    let j : Json := .int 9007199254740993
    let rounded : Json := .number (.float (.ofInt 9007199254740992))
    j.Integral ∧ (Value.ofJson j).toJson = rounded ∧ rounded ≠ j ∧
      (execute {} Script.page (counting j) {} tally .null .null).1.result =
        .ok (.object [("n", rounded)]) := by
  intro j rounded
  have hintegral : j.Integral := by
    simp [j, Json.Integral, Json.numbers, Json.int, Numeral.IsInteger]
  have hrounded : (Value.ofJson j).toJson = rounded := by
    have hnearest : Double.ofInt 9007199254740993 = .ofInt 9007199254740992 := by decide +kernel
    rw [hintegral.toJson_eq]
    exact congrArg (Json.number ∘ Numeral.float) hnearest
  have hne : rounded ≠ j := by simp [rounded, j, Json.int]
  exact ⟨hintegral, hrounded, hne, hrounded ▸ tally_result j⟩

end PageFlow
