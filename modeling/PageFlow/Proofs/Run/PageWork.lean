import PageFlow.Page.Scripted
import PageFlow.Proofs.Routine.Messages
import PageFlow.Proofs.Run.Record

namespace PageFlow

/-- A call, with the answer to it if it comes to one. -/
inductive Exchange (c : Call) : List Message → Prop
  | unanswered : Exchange c [.sent c]
  | answered (answer : Except PageError c.Answer) : Exchange c [.sent c, .answered c answer]

/-- A search for an element, and the answer that gives the element. -/
inductive Finds (element : Element) : Call → Message → Prop
  | located (selector : String) :
    Finds element (.locate selector) (.answered (.locate selector) (.ok element))
  | resolved (definition : Json) (timeout : Nat) :
    Finds element (.resolve definition timeout)
      (.answered (.resolve definition timeout) (.ok element))

/-- At most one call that is not about an element, or an operation on an element that was found. -/
inductive Orderly : List Message → Prop
  | silent : Orderly []
  | single {c : Call} {said : List Message} (free : ∀ element op, c ≠ .act element op)
    (exchange : Exchange c said) : Orderly said
  | found {element : Element} {op : ElementOp} {search : Call} {answer : Message}
    {said : List Message} (finds : Finds element search answer)
    (use : Exchange (.act element op) said) : Orderly (.sent search :: answer :: said)

def callsIn (said : List Message) : List Call :=
  said.filterMap Message.call?

theorem Exchange.calls {c : Call} {said : List Message} (h : Exchange c said) :
    callsIn said = [c] := by
  cases h with
  | unanswered => rfl
  | answered answer => rfl

theorem Finds.calls {element : Element} {search : Call} {answer : Message}
    (h : Finds element search answer) (said : List Message) :
    callsIn (.sent search :: answer :: said) = search :: callsIn said := by
  cases h with
  | located selector => rfl
  | resolved definition timeout => rfl

theorem Orderly.few {said : List Message} (h : Orderly said) : (callsIn said).length ≤ 2 := by
  cases h with
  | silent => exact Nat.zero_le 2
  | single free exchange =>
    rw [exchange.calls]
    exact Nat.le_succ 1
  | found finds use =>
    rw [finds.calls, use.calls]
    exact Nat.le_refl 2

/-- A single call, whatever is made of its answer. -/
theorem Exchange.speaks {α : Type} {c : Call} {Q : List Message → Prop}
    (h : ∀ said, Exchange c said → Q said) (f : Except PageError c.Answer → α) :
    (Routine.call c >>= fun answer => return f answer).Speaks fun said _ => Q said := by
  apply Routine.Speaks.bind
  apply Routine.Speaks.call
  · exact h _ .unanswered
  · exact fun answer => h _ (.answered answer)

namespace PageTask

def NeedsElement (task : PageTask) : Prop :=
  ∃ target op, task = onElement target op

structure Sends (task : PageTask) (said : List Message) : Prop where
  orderly : Orderly said
  single : ¬ task.NeedsElement → (callsIn said).length ≤ 1

theorem Sends.nil (task : PageTask) : task.Sends [] :=
  ⟨.silent, fun _ => Nat.zero_le 1⟩

theorem Sends.one {task : PageTask} {c : Call} {said : List Message}
    (free : ∀ element op, c ≠ .act element op) (h : Exchange c said) : task.Sends said where
  orderly := .single free h
  single _ := by
    rw [h.calls]
    exact Nat.le_refl 1

theorem Sends.found {target : Target} {op : ElementOp} {element : Element} {search : Call}
    {answer : Message} {said : List Message} (finds : Finds element search answer)
    (use : Exchange (.act element op) said) :
    (onElement target op).Sends (.sent search :: answer :: said) where
  orderly := .found finds use
  single h := absurd ⟨target, op, rfl⟩ h

theorem search_sends {target : Target} {op : ElementOp} (search : Call)
    (free : ∀ element op, search ≠ .act element op) {find : Routine (Except PageError Element)}
    (h : find.Speaks fun said r => Exchange search said ∧ ∀ element, r = some (.ok element) →
      ∃ answer, said = [.sent search, answer] ∧ Finds element search answer) :
    (find >>= fun
      | .error e => return .error e
      | .ok element => do
        let answer ← Routine.call (.act element op)
        return answer.map op.value).Speaks
      fun said (_ : Option (Except PageError Json)) => (onElement target op).Sends said := by
  apply Routine.Speaks.bind
  apply h.mono
  rintro said r ⟨hsaid, hfinds⟩
  match r with
  | none => exact .one free hsaid
  | some (.error e) =>
    change (onElement target op).Sends (said ++ [])
    rw [List.append_nil]
    exact .one free hsaid
  | some (.ok element) =>
    obtain ⟨answer, rfl, finds⟩ := hfinds element rfl
    exact Exchange.speaks (fun _ => .found finds) _

theorem perform_sends (timeout : Nat) (task : PageTask) :
    (task.perform timeout).Speaks fun said _ => task.Sends said := by
  cases task with
  | visit url => exact Exchange.speaks (fun _ => .one (by simp)) _
  | evaluate script => exact Exchange.speaks (fun _ => .one (by simp)) id
  | keyboard key => exact Exchange.speaks (fun _ => .one (by simp)) _
  | pause ms => exact ⟨.nil _, .nil _⟩
  | onElement target op =>
    cases target with
    | plain selector =>
      apply search_sends (.locate selector) (by simp)
      apply Routine.Speaks.call
      · exact ⟨.unanswered, nofun⟩
      · rintro answer
        refine ⟨.answered answer, fun element h => ?_⟩
        cases h
        exact ⟨_, rfl, .located selector⟩
    | structured definition =>
      apply search_sends (.resolve definition timeout) (by simp)
      apply Routine.Speaks.call
      · exact ⟨.unanswered, nofun⟩
      · rintro answer
        refine ⟨.answered answer, fun element h => ?_⟩
        cases h
        exact ⟨_, rfl, .resolved definition timeout⟩

/-- The steps that need no element: visits, evaluations, and keys for the page as a whole. -/
theorem needsElement_of_args {args : Table Json} {kind : StepKind} {selectors : Table Value}
    {timeout : Nat} {task : PageTask}
    (h : ofArgs? args kind selectors timeout = some (.ok task)) (needs : task.NeedsElement) :
    kind ≠ .visit ∧ kind ≠ .eval ∧ (kind = .press → hasArg args "selector") := by
  obtain ⟨target, op, rfl⟩ := needs
  cases kind with
  | visit =>
    cases hurl : textArg args .visit "url" <;> simp [ofArgs?, hurl, bind, Except.bind] at h
    cases h
  | eval =>
    cases hscript : textArg args .eval "script" <;> simp [ofArgs?, hscript, bind, Except.bind] at h
    cases h
  | press =>
    refine ⟨nofun, nofun, fun _ => ?_⟩
    cases hkey : textArg args .press "key" <;> simp [ofArgs?, hkey, bind, Except.bind] at h
    by_contra hnone
    rw [if_neg hnone] at h
    cases h
  | click | fill | type | wait | count | visible | run => exact ⟨nofun, nofun, nofun⟩

end PageTask

theorem Task.ofArgs_eq_page {args : Table Json} {kind : StepKind} {selectors : Table Value}
    {timeout : Nat} {task : PageTask}
    (h : Task.ofArgs args kind selectors timeout = .ok (.page task)) :
    PageTask.ofArgs? args kind selectors timeout = some (.ok task) := by
  rw [Task.ofArgs] at h
  split at h
  · next given hgiven =>
    cases given with
    | error fault => cases h
    | ok task =>
      cases h
      exact hgiven
  · cases hname : textArg args kind "action" <;> rw [hname] at h <;> cases h

namespace Step

variable {step : Step} {enter : Enter} {frame : Frame} {index timeout : Nat} {args : Table Json}

/-- What an attempt at a step says to the page, and what the attempt then comes to. -/
structure Asks (step : Step) (args : Table Json) (selectors : Table Value) (timeout : Nat)
    (said : List Message) (r : Option (Outcome Json)) : Prop where
  orderly : Orderly said
  single : step.kind = .visit ∨ step.kind = .eval ∨
    (step.kind = .press ∧ hasArg args "selector" = false) → (callsIn said).length ≤ 1
  /-- Nothing is said before all arguments are known to be good. -/
  checked : said ≠ [] → ∃ task, PageTask.ofArgs? args step.kind selectors timeout = some (.ok task)
  refused : ∀ message action place,
    r = some (.error (.raised (.invalidArgument message) action place)) → said = []

theorem Asks.silent {selectors : Table Value} (r : Option (Outcome Json)) :
    step.Asks args selectors timeout [] r :=
  ⟨.silent, fun _ => Nat.zero_le 1, fun h => absurd rfl h, fun _ _ _ _ => rfl⟩

theorem Asks.of_task {selectors : Table Value} {task : PageTask} {said : List Message}
    {r : Option (Outcome Json)}
    (h : PageTask.ofArgs? args step.kind selectors timeout = some (.ok task))
    (sends : task.Sends said) (fine : ∀ message action place,
      r ≠ some (.error (.raised (.invalidArgument message) action place))) :
    step.Asks args selectors timeout said r where
  orderly := sends.orderly
  single alone := by
    apply sends.single
    intro needs
    obtain ⟨hvisit, heval, hpress⟩ := PageTask.needsElement_of_args h needs
    rcases alone with kind | kind | ⟨kind, hnone⟩
    · exact hvisit kind
    · exact heval kind
    · simp [hpress kind] at hnone
  checked _ := ⟨task, h⟩
  refused message action place hr := absurd hr (fine message action place)

theorem ofPage_ne_invalidArgument (e : PageError) (message : String) :
    ActionFault.ofPage e ≠ .invalidArgument message := by
  cases e <;> exact nofun

theorem dispatch_speaks {task : PageTask} {Q : List Message → Option (Outcome Json) → Prop}
    (htask : Task.ofArgs args step.kind frame.selectors timeout = .ok (.page task))
    (h : (task.perform timeout).Speaks fun said r => match r with
      | none => Q said none
      | some (.ok value) => Q said (some (.ok value))
      | some (.error e) => Q said (some (.error (frame.error (.ofPage e) (some index))))) :
    (step.dispatch enter frame index args timeout).Speaks Q := by
  rw [dispatch, htask]
  apply Routine.Speaks.bind_quiet
  apply h.mono
  intro said r hsaid
  rcases r with _ | value | e
  · exact hsaid
  · exact ⟨rfl, hsaid⟩
  · exact ⟨rfl, hsaid⟩

theorem bounded_speaks {limits : Limits} {Q : List Message → Option (Outcome Json) → Prop}
    (h : (step.dispatch enter frame index args (step.timeout.getD limits.stepTimeout)).Speaks Q)
    (late : ∀ ms said, Q said none →
      Q said (some (.error (frame.error (.timeout .step ms) (some index))))) :
    (step.bounded limits enter frame index args).Speaks Q := by
  rw [bounded]
  cases step.bound? limits with
  | none => exact h
  | some ms =>
    apply Routine.Speaks.bind_quiet
    apply Routine.Speaks.within
    apply h.mono
    intro said r hsaid
    cases r with
    | none => exact ⟨hsaid, rfl, late ms said hsaid⟩
    | some result => exact ⟨rfl, hsaid⟩

theorem dispatch_asks (kind : step.kind ≠ .run) :
    (step.dispatch enter frame index args timeout).Speaks
      (step.Asks args frame.selectors timeout) := by
  cases htask : Task.ofArgs args step.kind frame.selectors timeout with
  | error fault =>
    rw [dispatch, htask]
    exact .silent _
  | ok task =>
    cases task with
    | run name params => exact absurd (Task.ofArgs_run htask) kind
    | page task =>
      have hargs := Task.ofArgs_eq_page htask
      apply dispatch_speaks htask
      apply (task.perform_sends timeout).mono
      intro said r sends
      match r with
      | none => exact .of_task hargs sends nofun
      | some (.ok value) => exact .of_task hargs sends nofun
      | some (.error e) =>
        refine .of_task hargs sends fun message action place h => ?_
        cases hfault : ActionFault.ofPage e <;> simp [Frame.error, hfault] at h
        exact ofPage_ne_invalidArgument e _ hfault

theorem bounded_asks (kind : step.kind ≠ .run) (limits : Limits) :
    (step.bounded limits enter frame index args).Speaks
      (step.Asks args frame.selectors (step.timeout.getD limits.stepTimeout)) :=
  bounded_speaks (dispatch_asks kind) fun _ _ asks =>
    ⟨asks.orderly, asks.single, asks.checked, nofun⟩

/--
One attempt at a step on the page, from any moment of a run: its calls are a single one, or the
search for an element and one operation on the element that was found; a visit, an evaluation and a
key for the page as a whole make a single call. There is no call before all arguments are known to
be good, and none in an attempt that fails because of an argument.
-/
theorem attempt_checks {σ : Type} (step : Step) (limits : Limits) (enter : Enter) (frame : Frame)
    (index : Nat) (args : Table Json) (page : Page σ) (s : Signals) (m : Moment σ)
    (kind : step.kind ≠ .run) :
    let attempt := step.bounded limits enter frame index args
    let run := attempt.run page s m
    let said := attempt.messages page s m
    run.2.calls.map Prod.snd = m.calls.map Prod.snd ++ callsIn said ∧
      (callsIn said).length ≤ 2 ∧
      step.Asks args frame.selectors (step.timeout.getD limits.stepTimeout) said
        run.1.toOption := by
  intro attempt run said
  have hspeaks : attempt.Speaks _ := bounded_asks kind limits
  have hasks := hspeaks.of_run page s m
  exact ⟨attempt.run_calls_messages page s m, hasks.orderly.few, hasks⟩

def filling : Step :=
  { kind := .fill, args := [("selector", .string "user"), ("value", .string "ada")] }

def misfilling : Step :=
  { kind := .fill, args := [("selector", .nat 5), ("value", .string "ada")] }

/--
A field is looked for, found, and filled in vain; one that is not named at all is not looked for.
-/
theorem attempt_checks_filling :
    let frame : Frame :=
      { action := "form", space := "", depth := 0, params := [], env := [],
        selectors := valuesOf [("user", .object [("css", .string "#user")])] }
    let page : Moment Script :=
      { page := { failures := [("fill:#user", [some (.failed "read only")])] } }
    let attempt (step : Step) := step.bounded {} (Action.enter {} 10) frame 0 step.args
    let said (step : Step) := (attempt step).messages Script.page { deadline := 60000 } page
    (callsIn (said filling)).map Call.key = ["resolve:#user", "fill:#user"] ∧
      Orderly (said filling) ∧ said misfilling = [] := by
  intro frame page attempt said
  obtain ⟨-, -, hfilling⟩ := attempt_checks filling {} (Action.enter {} 10) frame 0 filling.args
    Script.page { deadline := 60000 } page (by decide)
  obtain ⟨-, -, hmisfilling⟩ := attempt_checks misfilling {} (Action.enter {} 10) frame 0
    misfilling.args Script.page { deadline := 60000 } page (by decide)
  refine ⟨by decide +kernel, hfilling.orderly, ?_⟩
  exact hmisfilling.refused "fill step: selector must be a string or object, got number" "form"
    (some 0) rfl

end Step

end PageFlow
