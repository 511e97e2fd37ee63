import PageFlow.Run.Action

namespace PageFlow

/--
When a run is cancelled: at a time from its start, in milliseconds, during certain calls, or during
the call that so many others come before.
-/
structure Cancellation where
  at? : Option Nat := none
  on : Call → Bool := fun _ => false
  nth? : Option Nat := none

/-- Whether a call that so many others come before cancels the run. -/
def Cancellation.firesIn (s : Cancellation) (earlier : Nat) (c : Call) : Bool :=
  s.on c || s.nth? == some earlier

/-- What can interrupt a run: its cancellation, or the end of the time for the whole of it. -/
structure Signals extends Cancellation where
  deadline : Nat

/-- The top-level step that is at work, and how many attempts at it were begun. -/
structure InFlight where
  index : Nat
  kind : StepKind
  attempts : Nat
deriving DecidableEq

/-- What a run has recorded at its top level. -/
structure Ledger where
  entries : List Entry := []
  inFlight : Option InFlight := none

/--
Takes a note down. What happens inside of a turn is left to the step that the turn belongs to.
-/
def Ledger.note (l : Ledger) : Note → Ledger
  | ⟨.dispatched index kind, []⟩ => { l with inFlight := some ⟨index, kind, 0⟩ }
  | ⟨.attempted _ count, []⟩ => { l with inFlight := l.inFlight.map ({ · with attempts := count }) }
  | ⟨.recorded entry, []⟩ => ⟨l.entries ++ [entry], none⟩
  | _ => l

/-- A moment of a run with a page in a state of `σ`. -/
structure Moment (σ : Type) where
  page : σ
  now : Nat := 0
  /-- Whether a call has cancelled the run. -/
  cancelled : Bool := false
  /-- The calls so far, each with its time. -/
  calls : List (Nat × Call) := []
  ledger : Ledger := {}

namespace Moment

variable {σ : Type}

def isCancelled (m : Moment σ) (signals : Signals) : Bool :=
  m.cancelled || match signals.at? with
    | some c => c ≤ m.now
    | none => false

def status (m : Moment σ) (signals : Signals) : Status :=
  ⟨m.now, m.isCancelled signals⟩

/-- What stops a run by now, if anything does. -/
def stop? (m : Moment σ) (signals : Signals) : Option Interrupt :=
  (m.status signals).stop? signals.deadline

/--
What interrupts a pause and when. A run that is cancelled already stops at once; a pause that ends
at the very time of a signal is not interrupted by it.
-/
def interruption? (m : Moment σ) (signals : Signals) (ms : Nat) : Option (Nat × Interrupt) :=
  if ms = 0 then none
  else if m.isCancelled signals then some (m.now, .cancelled)
  else
    let stop := m.now + ms
    let late :=
      if signals.deadline < stop then
        some (max m.now signals.deadline, .deadline signals.deadline)
      else none
    match signals.at? with
    | some c => if c < stop ∧ c ≤ signals.deadline then some (c, .cancelled) else late
    | none => late

/-- Writes a call down and passes it to the page. Gives the time that it takes. -/
def send (m : Moment σ) (page : Page σ) (signals : Signals) (c : Call) : Nat × Moment σ :=
  let (ms, state) := page.send m.page m.now c
  (ms, { m with
    page := state
    cancelled := m.cancelled || signals.firesIn m.calls.length c
    calls := m.calls ++ [(m.now, c)] })

end Moment

/-- Runs a routine to its end, or to what interrupts it. Time passes in pauses only. -/
def Routine.run {σ α : Type} (page : Page σ) (signals : Signals) :
    Routine α → Moment σ → Except Interrupt α × Moment σ
  | done a, m => (.ok a, m)
  | ask (.pause ms) next, m =>
    match m.interruption? signals ms with
    | some (now, interrupt) => (.error interrupt, { m with now })
    | none => (next ()).run page signals { m with now := m.now + ms }
  | ask (.send c) next, m =>
    let (ms, m) := m.send page signals c
    (next ms).run page signals m
  | ask (.settle c) next, m =>
    let (answer, state) := page.settle m.page m.now c
    (next answer).run page signals { m with page := state }
  | ask .status next, m => (next (m.stop? signals)).run page signals m
  | ask (.note n) next, m => (next ()).run page signals { m with ledger := m.ledger.note n }

/-- What a run comes to: its result, the records of its steps, its calls and the time it took. -/
structure Report where
  result : Outcome Json
  trace : List Entry := []
  calls : List (Nat × Call) := []
  elapsed : Nat := 0

/-- The report of an interrupted run: the step in flight, if there is one, is recorded as failed. -/
def Ledger.interrupted (l : Ledger) (fault : ActionFault) (frame : Frame) :
    ActionError × List Entry :=
  match l.inFlight with
  | none => (frame.error fault none, l.entries)
  | some f =>
    let e := frame.error fault (some f.index)
    (e, l.entries ++
      [{ index := f.index, kind := f.kind, attempts := f.attempts, outcome := .failed e }])

/-- Runs an action on a page. Gives the report and the state in which the page is left. -/
def execute {σ : Type} (settings : Settings) (page : Page σ) (state : σ)
    (cancellation : Cancellation) (a : Action) (params env : Json) : Report × σ :=
  match Frame.root settings.registry a params env with
  | .error e => ({ result := .error e }, state)
  | .ok frame =>
    let signals := { cancellation with deadline := settings.limits.actionTimeout }
    match (a.run settings frame).run page signals { page := state } with
    | (.ok result, m) => (⟨result, m.ledger.entries, m.calls, m.now⟩, m.page)
    | (.error interrupt, m) =>
      let (e, trace) := m.ledger.interrupted interrupt.fault frame
      (⟨.error e, trace, m.calls, m.now⟩, m.page)

end PageFlow
