import Mathlib.Data.String.Basic
import PageFlow.Proofs.Json.RoundTrip
import PageFlow.Proofs.Routine.Alike
import PageFlow.Proofs.Run.PageWork
import PageFlow.Proofs.Run.Returns

namespace PageFlow

namespace Text

variable {s : List Char}

theorem trim_append {first : Char} (before : List Char) (hfirst : ¬ isBlank first)
    (h : trim s = s) (hne : s ≠ []) : trim (first :: before ++ s) = first :: before ++ s := by
  have hlast := (trims_trim s).last
  rw [h] at hlast
  cases s using List.reverseRecOn with
  | nil => exact absurd rfl hne
  | append_singleton start last =>
    have hframed := @trim_framed [] (before ++ start) [] first last nofun hfirst
      (hlast last (by simp)) nofun
    simpa using hframed

end Text

theorem Template.first?_of_braceless {s : List Char} (h : '\x7d' ∉ s) : first? s = none := by
  rw [first?]
  split
  · rfl
  · next before after hopen =>
    obtain ⟨rfl, -⟩ := splitOpen?_eq_some.1 hopen
    have hafter : '\x7d' ∉ after := fun hmem => h (by simp [hmem])
    rw [splitClose?_eq_none.2 hafter]
    rfl

theorem objectText?_compact {fields : List (String × Json)}
    (hordered : (Json.object fields).Ordered) (hintegral : (Json.object fields).Integral)
    (hdepth : (Json.object fields).depth ≤ Json.nestingLimit) :
    objectText? (Json.object fields).compact = some (.object fields) := by
  have hread := Json.read?_compact hordered hintegral hdepth
  have htrim : Text.trimStart (Json.object fields).compact.toList =
      '\x7b' :: (Json.fieldChars fields ++ ['\x7d']) := by
    rw [Json.compact, String.toList_ofList, Json.chars, Text.trimStart]
    exact List.dropWhile_cons_of_neg (by decide)
  simp only [objectText?, htrim, Json.readObject?, hread, Option.map_some]

/-- A name that one segment of a path spells, with nothing in it that ends a reference. -/
structure SimpleName (name : String) : Prop where
  dotless : '.' ∉ name.toList
  braceless : '\x7d' ∉ name.toList
  trimmed : Text.trim name.toList = name.toList
  allowed : name ∉ Path.forbidden

def selectorReference (name : String) : String :=
  "$\x7bselectors." ++ name ++ "\x7d"

section

variable {vars : Variables} {name : String} {value : Value}

theorem SimpleName.interpolate (h : SimpleName name) (vars : Variables) :
    interpolate vars name = .ok name :=
  interpolate_of_none (Template.first?_of_braceless h.braceless) vars

theorem SimpleName.interpolate_reference (h : SimpleName name)
    (hvalue : vars.selectors.get? name = some value) :
    PageFlow.interpolate vars (selectorReference name) = .ok value.display := by
  have hpath : Text.trim ("selectors.".toList ++ name.toList) =
      "selectors.".toList ++ name.toList := by
    by_cases hempty : name.toList = []
    · rw [hempty]
      decide
    · have hfirst : ¬ Text.isBlank 's' := by decide
      exact Text.trim_append "electors.".toList hfirst h.trimmed hempty
  have hresolve : Path.resolve ("selectors." ++ name) vars = .ok value :=
    @Path.resolve_entry vars name value .selectors h.dotless h.allowed hvalue
  have hdecomposes : Template.Decomposes ⟨[⟨[], "selectors.".toList ++ name.toList⟩], []⟩
      (selectorReference name).toList := by
    refine Template.decomposes_one.2 ⟨?_, Template.not_marked_nil, ?_, .inl Template.not_marked_nil⟩
    · simp [selectorReference, Placeholder.text]
    · simpa using h.braceless
  have hplaceholder :
      Placeholder.value ⟨[], "selectors.".toList ++ name.toList⟩ vars = .ok value := by
    rw [Placeholder.value, hpath, String.ofList_append, String.ofList_toList, String.ofList_toList]
    exact hresolve
  rw [Template.interpolate_one hdecomposes, hplaceholder]
  simp

theorem interpolateFields_insert {given result : String} (h : interpolate vars given = .ok result)
    (args : Table Json) (key : String) :
    interpolateFields vars (args.insert key (.string given)) =
      (interpolateFields vars (args.insert key .null)).map
        (Table.insert · key (.string result)) := by
  have hgiven : interpolateJson vars (.string given) = .ok (.string result) := by
    rw [interpolateJson, h]
    rfl
  have hnull : interpolateJson vars .null = .ok .null := rfl
  have hhead : ∀ rest : Table Json,
      interpolateFields vars ((key, .string given) :: rest) =
        (interpolateFields vars ((key, .null) :: rest)).map
          (Table.insert · key (.string result)) := by
    intro rest
    rw [interpolateFields, interpolateFields, hgiven, hnull]
    cases interpolateFields vars rest with
    | error e => rfl
    | ok rest =>
      simp only [bind, Except.bind, pure, Except.pure, Except.map, Table.insert, String.lt_irrefl,
        if_false, if_true]
  induction args with
  | nil => exact hhead []
  | cons entry rest ih =>
    obtain ⟨k, v⟩ := entry
    rw [Table.insert, Table.insert]
    split
    · exact hhead _
    split
    · exact hhead _
    · next hlt hne =>
      rw [interpolateFields, interpolateFields, ih]
      cases interpolateJson vars v with
      | error e => rfl
      | ok value =>
        cases interpolateFields vars (Table.insert rest key .null) with
        | error e => rfl
        | ok rest =>
          simp only [bind, Except.bind, pure, Except.pure, Except.map, Table.insert, hlt, hne,
            if_false]

theorem exists_insert_of_interpolateFields {given result : String}
    (h : interpolate vars given = .ok result) {args interpolated : Table Json} {key : String}
    (hargs : interpolateFields vars (args.insert key (.string given)) = .ok interpolated) :
    ∃ others : Table Json, interpolated = others.insert key (.string result) := by
  rw [interpolateFields_insert h] at hargs
  cases hothers : interpolateFields vars (args.insert key .null) with
  | error e =>
    rw [hothers] at hargs
    cases hargs
  | ok others =>
    rw [hothers] at hargs
    cases hargs
    exact ⟨others, rfl⟩

end

/-- The name of an object in the selectors scope that its own text spells and does not name. -/
structure NamesObject (selectors : Table Value) (name : String) (o : Json) : Prop where
  simple : SimpleName name
  bound : selectors.get? name = some (.ofJson o)
  object : ∃ fields, o = .object fields
  ordered : o.Ordered
  integral : o.Integral
  small : o.Small
  shallow : o.depth < 128
  unnamed : selectors.get? o.compact = none

namespace NamesObject

variable {selectors : Table Value} {name : String} {o : Json}

theorem display_eq (h : NamesObject selectors name o) : (Value.ofJson o).display = o.compact := by
  have hsame := h.integral.toJson_eq_self.2 h.small
  obtain ⟨fields, rfl⟩ := h.object
  exact congrArg Json.compact hsame

theorem targetArg_name (h : NamesObject selectors name o) (args : Table Json) (kind : StepKind) :
    targetArg (args.insert "selector" (.string name)) kind selectors = .ok (.structured o) := by
  have hsame := h.integral.toJson_eq_self.2 h.small
  have hbound := h.bound
  obtain ⟨fields, rfl⟩ := h.object
  rw [Value.ofJson] at hbound hsame
  rw [targetArg, Table.get?_insert, if_pos rfl]
  simp only [hbound, hsame]

theorem targetArg_text (h : NamesObject selectors name o) (args : Table Json) (kind : StepKind) :
    targetArg (args.insert "selector" (.string o.compact)) kind selectors =
      .ok (.structured o) := by
  have hunnamed := h.unnamed
  have htext : objectText? o.compact = some o := by
    have hshallow : o.depth ≤ Json.nestingLimit := Nat.le_of_lt_succ h.shallow
    have hordered := h.ordered
    have hintegral := h.integral
    obtain ⟨fields, rfl⟩ := h.object
    exact objectText?_compact hordered hintegral hshallow
  rw [targetArg, Table.get?_insert, if_pos rfl]
  simp only [hunnamed, htext]

end NamesObject

/-- Of the `selector` argument, a task depends only on whether it is given, and on its target. -/
theorem Task.ofArgs_congr {args args' : Table Json} {kind : StepKind} {selectors : Table Value}
    (others : ∀ key, key ≠ "selector" → args.get? key = args'.get? key)
    (given : hasArg args "selector" = hasArg args' "selector")
    (target : targetArg args kind selectors = targetArg args' kind selectors) (timeout : Nat) :
    ofArgs args kind selectors timeout = ofArgs args' kind selectors timeout := by
  have text : ∀ key, key ≠ "selector" → textArg args kind key = textArg args' kind key := by
    intro key hkey
    rw [textArg, textArg, others key hkey]
  have ms : hasArg args "ms" = hasArg args' "ms" := by
    rw [hasArg, hasArg, others "ms" (by decide)]
  have millis : millisArg args "ms" = millisArg args' "ms" := by
    rw [millisArg, millisArg, others "ms" (by decide)]
  have state : stateArg args = stateArg args' := by
    rw [stateArg, stateArg, others "state" (by decide)]
  rw [ofArgs, ofArgs]
  cases kind with
  | visit => simp only [PageTask.ofArgs?, text "url" (by decide)]
  | click | count | visible => simp only [PageTask.ofArgs?, target]
  | fill => simp only [PageTask.ofArgs?, target, text "value" (by decide)]
  | type => simp only [PageTask.ofArgs?, target, text "text" (by decide)]
  | press => simp only [PageTask.ofArgs?, target, given, text "key" (by decide)]
  | wait => simp only [PageTask.ofArgs?, target, ms, millis, state]
  | eval => simp only [PageTask.ofArgs?, text "script" (by decide)]
  | run => simp only [PageTask.ofArgs?, text "action" (by decide), others "params" (by decide)]

/--
With arguments apart from the selector that are good, a step of the kind does the operation on its
element.
-/
inductive Uses (args : Table Json) (timeout : Nat) : StepKind → ElementOp → Prop
  | click : Uses args timeout .click .click
  | fill {value : String} (given : textArg args .fill "value" = .ok value) :
    Uses args timeout .fill (.fill value)
  | type {text : String} (given : textArg args .type "text" = .ok text) :
    Uses args timeout .type (.type text)
  | press {key : String} (given : textArg args .press "key" = .ok key)
    (selector : hasArg args "selector") : Uses args timeout .press (.press key)
  | waitFor (untimed : hasArg args "ms" = false) :
    Uses args timeout .wait (.waitFor (stateArg args) timeout)
  | count : Uses args timeout .count .count
  | visible : Uses args timeout .visible .visible

theorem Uses.ofArgs {args : Table Json} {timeout : Nat} {kind : StepKind} {op : ElementOp}
    {selectors : Table Value} {target : Target} (h : Uses args timeout kind op)
    (htarget : targetArg args kind selectors = .ok target) :
    Task.ofArgs args kind selectors timeout = .ok (.page (.onElement target op)) := by
  have hargs : PageTask.ofArgs? args kind selectors timeout =
      some (.ok (.onElement target op)) := by
    cases h with
    | click | count | visible => simp only [PageTask.ofArgs?, htarget]; rfl
    | fill given | type given => simp only [PageTask.ofArgs?, htarget, given]; rfl
    | press given selector => simp only [PageTask.ofArgs?, htarget, given, selector]; rfl
    | waitFor untimed => simp only [PageTask.ofArgs?, htarget, untimed]; rfl
  rw [Task.ofArgs, hargs]
  rfl

theorem PageTask.uses_of_args {args : Table Json} {kind : StepKind} {selectors : Table Value}
    {timeout : Nat} {target : Target} {op : ElementOp}
    (h : ofArgs? args kind selectors timeout = some (.ok (.onElement target op))) :
    targetArg args kind selectors = .ok target ∧ Uses args timeout kind op := by
  have element : ∀ op', (targetArg args kind selectors >>= fun found =>
      (pure (onElement found op') : Except ArgFault PageTask)) = .ok (.onElement target op) →
      targetArg args kind selectors = .ok target ∧ op' = op := by
    intro op' h
    obtain ⟨found, htarget, hfound⟩ := Outcome.bind_eq_ok.1 h
    cases hfound
    exact ⟨htarget, rfl⟩
  unfold ofArgs? at h
  cases kind with
  | visit | eval =>
    obtain ⟨text, -, htext⟩ := Outcome.bind_eq_ok.1 (Option.some.inj h)
    cases htext
  | run => cases h
  | click | count | visible =>
    obtain ⟨htarget, rfl⟩ := element _ (Option.some.inj h)
    exact ⟨htarget, by constructor⟩
  | fill | type =>
    obtain ⟨text, hgiven, hrest⟩ := Outcome.bind_eq_ok.1 (Option.some.inj h)
    obtain ⟨htarget, rfl⟩ := element _ hrest
    exact ⟨htarget, by constructor; exact hgiven⟩
  | press =>
    obtain ⟨text, hgiven, hrest⟩ := Outcome.bind_eq_ok.1 (Option.some.inj h)
    split at hrest
    · next hselector =>
      obtain ⟨htarget, rfl⟩ := element _ hrest
      exact ⟨htarget, .press hgiven hselector⟩
    · cases hrest
  | wait =>
    have h := Option.some.inj h
    split at h
    · obtain ⟨ms, -, hms⟩ := Outcome.bind_eq_ok.1 h
      cases hms
    · next huntimed =>
      obtain ⟨htarget, rfl⟩ := element _ h
      exact ⟨htarget, .waitFor (eq_false_of_ne_true huntimed)⟩

/-- The search for a definition, and one operation on what it has found, if there is anything. -/
inductive Seeks (o : Json) (timeout : Nat) (op : ElementOp) : List Call → Prop
  | alone : Seeks o timeout op [.resolve o timeout]
  | used (element : Element) : Seeks o timeout op [.resolve o timeout, .act element op]

theorem Seeks.no_locate {o : Json} {timeout : Nat} {op : ElementOp} {calls : List Call}
    (h : Seeks o timeout op calls) (selector : String) : .locate selector ∉ calls := by
  cases h <;> simp

theorem PageTask.perform_seeks (o : Json) (timeout : Nat) (op : ElementOp) :
    (PageTask.perform timeout (.onElement (.structured o) op)).Speaks
      fun said _ => Seeks o timeout op (callsIn said) := by
  apply Routine.Speaks.bind
  apply Routine.Speaks.call
  · exact .alone
  rintro (e | element)
  · exact .alone
  · refine Exchange.speaks (fun said exchange => ?_) _
    cases exchange with
    | unanswered | answered => exact .used element

/-- A task on no element but one that is found by a definition does not look for another. -/
theorem PageTask.perform_locates_not {task : PageTask} (timeout : Nat)
    (h : ∀ target op, task = .onElement target op → ∃ o, target = .structured o) :
    (task.perform timeout).Speaks fun said _ => ∀ selector, .locate selector ∉ callsIn said := by
  have hother : ∀ c : Call, (∀ selector, c ≠ .locate selector) → ∀ said, Exchange c said →
      ∀ selector, .locate selector ∉ callsIn said := by
    intro c hc said exchange selector hmem
    rw [exchange.calls] at hmem
    exact hc selector (List.mem_singleton.1 hmem).symm
  cases task with
  | visit url => exact Exchange.speaks (hother _ (by simp)) _
  | evaluate script => exact Exchange.speaks (hother _ (by simp)) id
  | keyboard key => exact Exchange.speaks (hother _ (by simp)) _
  | pause ms => exact ⟨nofun, nofun⟩
  | onElement target op =>
    obtain ⟨o, rfl⟩ := h target op rfl
    apply (perform_seeks o timeout op).mono
    intro said _ seeks
    exact seeks.no_locate

namespace Step

def on (step : Step) (selector : String) : Step :=
  { step with args := Table.insert step.args "selector" (.string selector) }

theorem interpolateFields_on {vars : Variables} {given result : String}
    (h : interpolate vars given = .ok result) (step : Step) :
    interpolateFields vars (step.on given).args =
      (interpolateFields vars (Table.insert step.args "selector" .null)).map
        (Table.insert · "selector" (.string result)) :=
  interpolateFields_insert h step.args "selector"

section

variable {step : Step} {enter : Enter} {frame : Frame} {index timeout : Nat} {args : Table Json}
  {limits : Limits} {o : Json}

theorem ofArgs_eq_of_names {name : String} (h : NamesObject frame.selectors name o)
    (args : Table Json) (kind : StepKind) (timeout : Nat) :
    Task.ofArgs (args.insert "selector" (.string name)) kind frame.selectors timeout =
      Task.ofArgs (args.insert "selector" (.string o.compact)) kind frame.selectors timeout := by
  apply Task.ofArgs_congr
  · intro key hkey
    rw [Table.get?_insert, Table.get?_insert, if_neg hkey.symm, if_neg hkey.symm]
  · simp [hasArg, Table.get?_insert]
  · rw [h.targetArg_name, h.targetArg_text]

theorem dispatch_congr {args args' : Table Json} (h : Task.ofArgs args step.kind frame.selectors
    timeout = Task.ofArgs args' step.kind frame.selectors timeout) :
    step.dispatch enter frame index args timeout =
      step.dispatch enter frame index args' timeout := by
  rw [dispatch, dispatch, h]

theorem attemptAll_congr (step : Step) {args args' : Table Json}
    (h : ∀ timeout, Task.ofArgs args step.kind frame.selectors timeout =
      Task.ofArgs args' step.kind frame.selectors timeout) :
    step.attemptAll limits enter frame index args =
      step.attemptAll limits enter frame index args' := by
  rw [attemptAll, attemptAll, bounded, bounded, dispatch_congr (h _)]

theorem bounded_seeks {op : ElementOp} (htarget : targetArg args step.kind frame.selectors =
    .ok (.structured o)) (h : Uses args (step.timeout.getD limits.stepTimeout) step.kind op) :
    (step.bounded limits enter frame index args).Speaks fun said _ =>
      Seeks o (step.timeout.getD limits.stepTimeout) op (callsIn said) := by
  apply bounded_speaks _ fun _ _ => id
  apply dispatch_speaks (h.ofArgs htarget)
  apply (PageTask.perform_seeks o _ op).mono
  rintro said (_ | _ | _) seeks <;> exact seeks

theorem bounded_locates_not (kind : step.kind ≠ .run)
    (htarget : targetArg args step.kind frame.selectors = .ok (.structured o)) :
    (step.bounded limits enter frame index args).Speaks fun said _ =>
      ∀ selector, .locate selector ∉ callsIn said := by
  apply bounded_speaks _ fun _ _ => id
  cases htask : Task.ofArgs args step.kind frame.selectors
      (step.timeout.getD limits.stepTimeout) with
  | error fault =>
    rw [dispatch, htask]
    exact fun selector => List.not_mem_nil
  | ok task =>
    cases task with
    | run name params => exact absurd (Task.ofArgs_run htask) kind
    | page task =>
      have honly : ∀ target op, task = .onElement target op → ∃ o, target = .structured o := by
        rintro target op rfl
        have huses := PageTask.uses_of_args (Task.ofArgs_eq_page htask)
        cases htarget.symm.trans huses.1
        exact ⟨o, rfl⟩
      apply dispatch_speaks htask
      apply (PageTask.perform_locates_not _ honly).mono
      rintro said (_ | _ | _) hsaid <;> exact hsaid

end

section

open Routine (InStep)

variable {settings : Settings} {enter : Enter} {frame : Frame} {index : Nat} {step : Step}
  {progress : Progress}

theorem record_inStep {α : Type} (entry entry' : Entry) (result : α) :
    InStep Eq (record entry result) (record entry' result) :=
  .note _ _ (.done rfl)

theorem recover_inStep (given given' : String) (entry entry' : StepOutcome → List Entry → Entry)
    (rescue : Progress → Routine (Outcome (Progress × Json))) (e : ActionError) :
    InStep Eq ((step.on given).recover frame index entry rescue e progress)
      ((step.on given').recover frame index entry' rescue e progress) := by
  change InStep Eq (step.recover frame index entry rescue e progress)
    (step.recover frame index entry' rescue e progress)
  rw [recover, recover]
  split
  · exact record_inStep _ _ _
  split
  · exact record_inStep _ _ _
  · exact record_inStep _ _ _
  · apply (InStep.refl _).bind
    rintro ⟨r, nested⟩ _ rfl
    cases r with
    | error e => exact record_inStep _ _ _
    | ok given => exact record_inStep _ _ _

/-- Steps that differ in an argument go alike, if they do so once their conditions hold. -/
theorem lifecycle_inStep {given given' : String}
    {rescue : Progress → Routine (Outcome (Progress × Json))}
    (h : InStep Eq ((step.on given).execute settings enter frame index rescue progress.begin)
      ((step.on given').execute settings enter frame index rescue progress.begin)) :
    InStep Eq ((step.on given).lifecycle settings enter frame index rescue progress)
      ((step.on given').lifecycle settings enter frame index rescue progress) := by
  have hjudge : ∀ text, (step.on text).judge settings.limits (frame.vars progress.begin) =
      step.judge settings.limits (frame.vars progress.begin) := fun _ => rfl
  rw [lifecycle, lifecycle]
  apply InStep.status_bind
  intro stop
  cases stop with
  | some cause => exact .refl _
  | none =>
    dsimp only
    split
    · exact .refl _
    apply InStep.note_bind
    rw [hjudge, hjudge]
    cases step.judge settings.limits (frame.vars progress.begin) with
    | holds => exact h
    | fails => exact .refl _
    | broken e =>
      cases settings.limits.conditionErrors with
      | proceed => exact h
      | skip | fail => exact .refl _

theorem execute_inStep {given given' result result' : String}
    {rescue : Progress → Routine (Outcome (Progress × Json))}
    (hresult : interpolate (frame.vars progress) given = .ok result)
    (hresult' : interpolate (frame.vars progress) given' = .ok result')
    (htask : ∀ args : Table Json, ∀ timeout,
      Task.ofArgs (args.insert "selector" (.string result)) step.kind frame.selectors timeout =
        Task.ofArgs (args.insert "selector" (.string result')) step.kind frame.selectors timeout) :
    InStep Eq ((step.on given).execute settings enter frame index rescue progress)
      ((step.on given').execute settings enter frame index rescue progress) := by
  rw [execute, execute, interpolateFields_on hresult, interpolateFields_on hresult']
  cases interpolateFields (frame.vars progress) (Table.insert step.args "selector" .null) with
  | error e => exact .refl _
  | ok others =>
    have hattempts : (step.on given).attemptAll settings.limits enter frame index
          (Table.insert others "selector" (.string result)) =
        (step.on given').attemptAll settings.limits enter frame index
          (Table.insert others "selector" (.string result')) :=
      attemptAll_congr step (htask others)
    dsimp only [Except.map]
    apply InStep.note_bind
    rw [hattempts]
    apply (InStep.refl _).bind
    rintro ended _ rfl
    cases ended.result with
    | ok value => exact record_inStep _ _ _
    | error e => exact recover_inStep given given' _ _ _ e

end

/-- A selector leads to an object by its name, or by the reference to it. -/
inductive LeadsTo (name : String) : String → Prop
  | byName : LeadsTo name name
  | byReference : LeadsTo name (selectorReference name)

section

variable {step : Step} {vars : Variables} {name selector : String} {o : Json} {args : Table Json}

theorem targetArg_of_leadsTo (h : NamesObject vars.selectors name o)
    (hselector : LeadsTo name selector)
    (hargs : interpolateFields vars (step.on selector).args = .ok args) (kind : StepKind) :
    targetArg args kind vars.selectors = .ok (.structured o) := by
  cases hselector with
  | byName =>
    obtain ⟨others, rfl⟩ := exists_insert_of_interpolateFields (h.simple.interpolate vars) hargs
    exact h.targetArg_name others kind
  | byReference =>
    have hreference := h.simple.interpolate_reference h.bound
    obtain ⟨others, rfl⟩ := exists_insert_of_interpolateFields hreference hargs
    rw [h.display_eq]
    exact h.targetArg_text others kind

end

/--
What becomes of a step with the name of an object in the selectors scope, and of the same step with
the reference to the object.
-/
structure SameElement (σ : Type) (step : Step) (settings : Settings) (enter : Enter) (frame : Frame)
    (index : Nat) (progress : Progress) (name : String) (o : Json) : Prop where
  /-- Both fail on another argument, or the attempts at both are the same. -/
  attempts :
    match interpolateFields (frame.vars progress) (step.on name).args,
      interpolateFields (frame.vars progress) (step.on (selectorReference name)).args with
    | .ok args, .ok args' =>
      (step.on name).attemptAll settings.limits enter frame index args =
        (step.on (selectorReference name)).attemptAll settings.limits enter frame index args'
    | .error e, .error e' => e = e'
    | _, _ => False
  /-- All of the step goes alike: its condition, its attempts, and what follows them. -/
  alike : ∀ (page : Page σ) s m, SameRun Eq
    ((run settings enter frame index (step.on name) progress).run page s m)
    ((run settings enter frame index (step.on (selectorReference name)) progress).run page s m)
  /-- An attempt looks for the object that is named, within the time of the step. -/
  seeks : ∀ selector args op (page : Page σ) s m, LeadsTo name selector →
    interpolateFields (frame.vars progress) (step.on selector).args = .ok args →
      Uses args (step.timeout.getD settings.limits.stepTimeout) step.kind op →
        Seeks o (step.timeout.getD settings.limits.stepTimeout) op
          (callsIn (((step.on selector).bounded settings.limits enter frame index args).messages
            page s m))
  locates_not : ∀ selector args (page : Page σ) s m plain, LeadsTo name selector →
    interpolateFields (frame.vars progress) (step.on selector).args = .ok args → step.kind ≠ .run →
      .locate plain ∉
        callsIn (((step.on selector).bounded settings.limits enter frame index args).messages
          page s m)

/--
A step gets at an object in the selectors scope by its name or by a reference to it. In both ways it
makes the same attempts, and each of them looks for the object itself and for no plain selector. The
object has small integers for its numbers, and so few levels that its text can be read.
-/
theorem name_or_reference (σ : Type) (step : Step) (settings : Settings) (enter : Enter)
    (frame : Frame) (index : Nat) (progress : Progress) {name : String} {o : Json}
    (h : NamesObject frame.selectors name o) :
    SameElement σ step settings enter frame index progress name o := by
  have hname := h.simple.interpolate (frame.vars progress)
  have hreference : interpolate (frame.vars progress) (selectorReference name) = .ok o.compact := by
    rw [← h.display_eq]
    exact h.simple.interpolate_reference h.bound
  have htask := fun args => ofArgs_eq_of_names h args step.kind
  constructor
  case attempts =>
    rw [interpolateFields_on hname, interpolateFields_on hreference]
    cases interpolateFields (frame.vars progress) (Table.insert step.args "selector" .null) with
    | error e => rfl
    | ok others => exact attemptAll_congr step (htask others)
  case alike =>
    intro page s m
    have halike : Routine.InStep Eq (run settings enter frame index (step.on name) progress)
        (run settings enter frame index (step.on (selectorReference name)) progress) := by
      rw [run_eq, run_eq]
      exact lifecycle_inStep (execute_inStep hname hreference htask)
    exact halike.run page s ⟨rfl, rfl, rfl, rfl⟩
  case seeks =>
    intro selector args op page s m hselector hargs huses
    have htarget : targetArg args step.kind (frame.vars progress).selectors = _ :=
      targetArg_of_leadsTo h hselector hargs step.kind
    have hspeaks : ((step.on selector).bounded settings.limits enter frame index args).Speaks _ :=
      bounded_seeks htarget huses
    exact hspeaks.of_run page s m
  case locates_not =>
    intro selector args page s m plain hselector hargs kind
    have htarget : targetArg args step.kind (frame.vars progress).selectors = _ :=
      targetArg_of_leadsTo h hselector hargs step.kind
    have hspeaks : ((step.on selector).bounded settings.limits enter frame index args).Speaks _ :=
      bounded_locates_not kind htarget
    exact hspeaks.of_run page s m plain

/-- A definition whose text has a reference in it, to nothing that is known. -/
def saveButton : Json :=
  .object [("css", .string "#$\x7bparams.x\x7d"), ("nth", .int 2)]

theorem numbers_saveButton : saveButton.numbers = [.int 2] := rfl

/-- The reference in the text is not taken for one when the text is in the place of another. -/
theorem name_or_reference_saveButton :
    let frame : Frame :=
      { action := "form", space := "", depth := 0, params := [], env := [],
        selectors := valuesOf [("save", saveButton)] }
    let click : Step := { kind := .click, args := [] }
    let reference := click.on (selectorReference "save")
    let attempt (page : Moment Script) :=
      (reference.bounded {} (Action.enter {} 10) frame 0
        [("selector", .string saveButton.compact)]).messages Script.page { deadline := 60000 } page
    NamesObject frame.selectors "save" saveButton ∧
      SameElement Script click {} (Action.enter {} 10) frame 0 {} "save" saveButton ∧
        ∀ page, Seeks saveButton 30000 .click (callsIn (attempt page)) := by
  intro frame click reference attempt
  have hnames : NamesObject frame.selectors "save" saveButton :=
    { simple := ⟨by decide, by decide, by decide, by decide⟩
      bound := rfl
      object := ⟨_, rfl⟩
      ordered :=
        ⟨List.pairwise_pair.2 (String.lt_iff_toList_lt.2 (by decide)), trivial, trivial, trivial⟩
      integral := by simp [Json.Integral, numbers_saveButton, Numeral.IsInteger]
      small := by simp [Json.Small, numbers_saveButton, Value.wholeLimit]
      shallow := by decide
      unnamed := by decide }
  have hsame := name_or_reference Script click {} (Action.enter {} 10) frame 0 {} hnames
  have hargs : interpolateFields (frame.vars {}) reference.args =
      .ok [("selector", .string saveButton.compact)] := by
    have hreference : interpolate (frame.vars {}) (selectorReference "save") = _ :=
      hnames.simple.interpolate_reference hnames.bound
    rw [hnames.display_eq] at hreference
    exact interpolateFields_on hreference click
  refine ⟨hnames, hsame, fun page => ?_⟩
  exact hsame.seeks _ _ _ Script.page { deadline := 60000 } page .byReference hargs .click

end Step

end PageFlow
