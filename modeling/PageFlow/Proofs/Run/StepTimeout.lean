import PageFlow.Proofs.Routine.Composition

namespace PageFlow

variable {σ : Type} {page : Page σ} {s : Signals} {m : Moment σ} {limit : Nat}

/-- What an attempt comes to, with the records of the action that it ran. -/
abbrev Attempt.Run (σ : Type) := Except Interrupt (Outcome Json × List Entry) × Moment σ

/--
What a limit makes of an attempt from a moment on. `whole` is the attempt without the limit, and
`history` what that asks for.
-/
structure Truncates (s : Signals) (m : Moment σ) (limit : Nat) (e : ActionError)
    (history : List (Nat × Request)) (whole cut : Attempt.Run σ) : Prop where
  calls : whole.2.calls = m.calls ++ callsOf history
  nested : ∀ r, whole.1 = .ok r → r.2 = entriesOf (eventsOf history)
  /-- The attempt is over in time. -/
  kept : ∀ r, whole.1 = .ok r → whole.2.now ≤ m.now + limit → cut = whole
  /-- A signal comes in time. -/
  interrupted : ∀ cause, whole.1 = .error cause → whole.2.now ≤ m.now + limit →
    cut.2.stop? s ≠ none
  /-- The time is over before. -/
  failed : m.now + limit < whole.2.now →
    cut.1 = .ok (.error e, entriesOf (eventsOf (history.filter (·.1 ≤ m.now + limit)))) ∧
      cut.2.now = m.now + limit ∧
      cut.2.calls = m.calls ++ (callsOf history).filter (·.1 ≤ m.now + limit)

namespace Routine

/-- A routine that fails when its time is over. -/
def limited (work : Routine (Outcome Json)) (limit : Nat) (e : ActionError) :
    Routine (Outcome Json) := do
  match ← work.within limit with
  | some result => return result
  | none => raise e

variable {work : Routine (Outcome Json)} {e : ActionError}

theorem run_limited_of_le {r : Outcome Json} (h : (work.run page s m).1 = .ok r)
    (hle : (work.run page s m).2.now ≤ m.now + limit) :
    (work.limited limit e).run page s m = work.run page s m := by
  rw [limited, run_bind, run_within_of_le h hle]
  exact Prod.ext h.symm rfl

theorem run_limited_of_lt (h : m.now + limit < (work.run page s m).2.now) :
    (work.limited limit e).run page s m =
      (.ok (.error e), ((work.within limit).run page s m).2) := by
  have hover := (run_within_of_lt h).1
  rw [limited, run_bind]
  generalize (work.within limit).run page s m = cut at hover ⊢
  obtain ⟨r, m'⟩ := cut
  cases hover
  rfl

theorem stop?_of_run_limited {cause : Interrupt} (h : (work.run page s m).1 = .error cause)
    (hle : (work.run page s m).2.now ≤ m.now + limit) :
    ((work.limited limit e).run page s m).2.stop? s ≠ none := by
  have hstop := stop?_of_run_within h hle
  rw [limited, run_bind]
  generalize (work.within limit).run page s m = cut at hstop ⊢
  obtain ⟨r, m'⟩ := cut
  cases r with
  | error cause => exact hstop
  | ok r? => cases r? <;> exact hstop

theorem run_within_records (h : m.now + limit < (work.run page s m).2.now) :
    ((work.within limit).run page s m).2.ledger.entries = m.ledger.entries ++
        entriesOf (eventsOf ((work.asked page s m).filter (·.1 ≤ m.now + limit))) ∧
      ((work.within limit).run page s m).2.calls = m.calls ++
        (callsOf (work.asked page s m)).filter (·.1 ≤ m.now + limit) := by
  have hevents := asked_within_of_lt (g := fun q => q.2.event?) (fun _ _ => rfl) h
  have hcalls := asked_within_of_lt (g := fun q => q.2.call?.map (q.1, ·)) (fun _ _ => rfl) h
  rw [run_ledger, run_calls, Ledger.after_entries, ← callsOf_filter _ (· ≤ m.now + limit)]
  exact ⟨congrArg (_ ++ entriesOf ·) hevents, congrArg (_ ++ ·) hcalls⟩

theorem truncates_limited (work : Routine (Outcome Json)) (turn : Turn) (limit : Nat)
    (e : ActionError) (page : Page σ) (s : Signals) (m : Moment σ) :
    Truncates s m limit e (work.asked page s m.fresh) ((work.collect turn []).run page s m)
      (((work.limited limit e).collect turn []).run page s m) := by
  have hwhole : (work.collect turn []).run page s m =
      gathered m.ledger (work.run page s m.fresh) := run_collect work turn {} m
  have hcut : ((work.limited limit e).collect turn []).run page s m =
      gathered m.ledger ((work.limited limit e).run page s m.fresh) := run_collect _ turn {} m
  rw [hwhole, hcut]
  constructor
  · exact run_calls page s work m.fresh
  · intro r hr
    rw [(of_gathered_ok hr).2, run_ledger, Ledger.after_entries]
    exact List.nil_append _
  · intro r hr hle
    exact congrArg _ (run_limited_of_le (of_gathered_ok hr).1 hle)
  · intro cause hr hle
    exact stop?_of_run_limited (of_gathered_error hr) hle
  · intro h
    have hover : m.fresh.now + limit < (work.run page s m.fresh).2.now := h
    obtain ⟨hentries, hcalls⟩ := run_within_records hover
    rw [run_limited_of_lt hover]
    refine ⟨?_, (run_within_of_lt hover).2, hcalls⟩
    rw [gathered, hentries]
    rfl

end Routine

namespace Step

variable {step : Step} {limits : Limits} {enter : Enter} {frame : Frame} {index : Nat}
  {args : Table Json}

theorem bound?_eq (step : Step) (limits : Limits) : step.bound? limits =
    if step.kind = .run ∧ step.timeout = none then none
    else some (step.timeout.getD limits.stepTimeout) := by
  rw [bound?]
  cases step.timeout <;> cases step.kind <;> rfl

theorem bounded_of_none (h : step.bound? limits = none) :
    step.bounded limits enter frame index args =
      step.dispatch enter frame index args (step.timeout.getD limits.stepTimeout) := by
  rw [bounded, h]

theorem bounded_of_some (h : step.bound? limits = some limit) :
    step.bounded limits enter frame index args =
      (step.dispatch enter frame index args (step.timeout.getD limits.stepTimeout)).limited limit
        (frame.error (.timeout .step limit) (some index)) := by
  rw [bounded, h]
  rfl

/--
One attempt at a step, from any moment of a run: with a limit on its time it is as without one if it
is over in time, and otherwise it fails when the time is over, with the calls and the nested records
that it has made by then. The failure is one that may be repeated or handled.
-/
theorem bounded_truncates (step : Step) (limits : Limits) (enter : Enter) (frame : Frame)
    (index : Nat) (args : Table Json) (turn : Turn) (page : Page σ) (s : Signals) (m : Moment σ) :
    let limit := step.timeout.getD limits.stepTimeout
    let work := step.dispatch enter frame index args limit
    let e := frame.error (.timeout .step limit) (some index)
    let attempt := step.bounded limits enter frame index args
    e.isFatal = false ∧
      if step.kind = .run ∧ step.timeout = none then attempt = work
      else Truncates s m limit e (work.asked page s m.fresh)
        ((work.collect turn []).run page s m) ((attempt.collect turn []).run page s m) := by
  intro limit work e attempt
  refine ⟨rfl, ?_⟩
  split
  next h =>
    apply bounded_of_none
    rw [bound?_eq, if_pos h]
  next h =>
    have hbound : step.bound? limits = some limit := (bound?_eq step limits).trans (if_neg h)
    have hattempt : attempt = work.limited limit e := bounded_of_some hbound
    rw [hattempt]
    exact Routine.truncates_limited work turn limit e page s m

end Step

end PageFlow
