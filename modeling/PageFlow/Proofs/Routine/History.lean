import PageFlow.Proofs.Routine.Race

namespace PageFlow

variable {σ α : Type}

/-- The requests that a routine makes in time, up to its end or to what interrupts it. -/
def Routine.asked (page : Page σ) (signals : Signals) :
    Routine α → Moment σ → List (Nat × Request)
  | done _, _ => []
  | ask (.pause ms) next, m =>
    (m.now, .pause ms) ::
      match m.interruption? signals ms with
      | some _ => []
      | none => (next ()).asked page signals { m with now := m.now + ms }
  | ask (.send c) next, m =>
    let (ms, after) := m.send page signals c
    (m.now, .send c) :: (next ms).asked page signals after
  | ask (.settle c) next, m =>
    let (answer, state) := page.settle m.page m.now c
    (m.now, .settle c) :: (next answer).asked page signals { m with page := state }
  | ask .status next, m => (m.now, .status) :: (next (m.stop? signals)).asked page signals m
  | ask (.note n) next, m =>
    (m.now, .note n) :: (next ()).asked page signals { m with ledger := m.ledger.note n }

def eventsOf (history : List (Nat × Request)) : List Event :=
  history.filterMap fun q => q.2.event?

def Request.call? : Request → Option Call
  | .send c => some c
  | .pause _ | .settle _ | .status | .note _ => none

def callsOf (history : List (Nat × Request)) : List (Nat × Call) :=
  history.filterMap fun q => q.2.call?.map (q.1, ·)

theorem callsOf_filter (history : List (Nat × Request)) (p : Nat → Bool) :
    callsOf (history.filter fun q => p q.1) = (callsOf history).filter fun q => p q.1 := by
  induction history with
  | nil => rfl
  | cons q history ih =>
    obtain ⟨t, r⟩ := q
    by_cases ht : p t <;> cases r <;> simp_all [callsOf, Request.call?]

namespace Routine

variable (page : Page σ) (signals : Signals)

/-- A run is what becomes of a race in which pauses win over signals that come as they end. -/
theorem races_run (p : Routine α) (m : Moment σ) :
    p.Races page signals m (eventsOf (p.asked page signals m)) (p.run page signals m) := by
  induction p generalizing m with
  | done a => exact .done a m
  | ask r next ih =>
    cases r with
    | pause ms =>
      rw [asked, run]
      cases hi : m.interruption? signals ms with
      | some i => exact .stopped (Moment.stops_of_interruption? hi)
      | none => exact .passed (Moment.passes_of_interruption? hi) (ih _ _)
    | send c => exact .sent (ih _ _)
    | settle c => exact .settled (ih _ _)
    | status => exact .checked (ih _ _)
    | note n => exact .noted (ih _ _)

theorem Always.of_run {p : Routine α} {Q : List Event → Option α → Prop} (h : p.Always Q)
    (m : Moment σ) : Q (eventsOf (p.asked page signals m)) (p.run page signals m).1.toOption :=
  h.of_races (races_run page signals p m)

theorem run_ledger (p : Routine α) (m : Moment σ) :
    (p.run page signals m).2.ledger = m.ledger.after (eventsOf (p.asked page signals m)) :=
  (races_run page signals p m).ledger

theorem run_calls (p : Routine α) (m : Moment σ) :
    (p.run page signals m).2.calls = m.calls ++ callsOf (p.asked page signals m) := by
  induction p generalizing m with
  | done a => exact (List.append_nil _).symm
  | ask r next ih =>
    cases r with
    | pause ms =>
      rw [asked, run]
      cases hi : m.interruption? signals ms with
      | some i => exact (List.append_nil _).symm
      | none => exact ih _ _
    | send c =>
      refine (ih _ _).trans ?_
      change m.calls ++ [(m.now, c)] ++ callsOf _ = m.calls ++ (m.now, c) :: callsOf _
      rw [List.append_assoc]
      rfl
    | settle c => exact ih _ _
    | status => exact ih _ _
    | note n => exact ih _ _

end Routine

/-- The requests of a run of an action, each with its time; see `execute`. -/
def history (settings : Settings) (page : Page σ) (state : σ) (cancellation : Cancellation)
    (a : Action) (params env : Json) : List (Nat × Request) :=
  match Frame.root settings.registry a params env with
  | .error _ => []
  | .ok frame =>
    (a.run settings frame).asked page
      { cancellation with deadline := settings.limits.actionTimeout } { page := state }

end PageFlow
