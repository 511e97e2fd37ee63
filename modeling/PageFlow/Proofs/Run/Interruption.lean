import PageFlow.Proofs.Routine.Truncation
import PageFlow.Proofs.Run.Trace

namespace PageFlow

def Settings.within (s : Settings) (ms : Nat) : Settings :=
  { s with limits := { s.limits with actionTimeout := ms } }

section

variable (settings : Settings) (ms : Nat)

theorem Step.lifecycle_within (step : Step) (enter : Enter) (frame : Frame) (index : Nat)
    (rescue : Progress → Routine (Outcome (Progress × Json))) (progress : Progress) :
    step.lifecycle (settings.within ms) enter frame index rescue progress =
      step.lifecycle settings enter frame index rescue progress :=
  rfl

theorem Step.runAll_within (enter : Enter) (frame : Frame) (steps : List Step) :
    ∀ index progress last, runAll (settings.within ms) enter frame index steps progress last =
      runAll settings enter frame index steps progress last := by
  induction steps using listInduction with
  | nil =>
    intro index progress last
    rw [runAll]
    rfl
  | cons step rest ihFallback ihRest =>
    intro index progress last
    unfold runAll
    simp only [run_eq, lifecycle_within, ihFallback, ihRest]

theorem Action.body_within (a : Action) (enter : Enter) (frame : Frame) :
    a.body (settings.within ms) enter frame = a.body settings enter frame := by
  unfold body
  have hdepth : (settings.within ms).limits.maxExpressionDepth =
      settings.limits.maxExpressionDepth := rfl
  simp only [Step.runAll_within, conclude_congr hdepth]

theorem Action.enter_within (levels : Nat) :
    enter (settings.within ms) levels = enter settings levels := by
  induction levels with
  | zero => rfl
  | succ levels ih =>
    funext frame index name params
    rw [enter]
    rw [ih]
    simp only [body_within]
    rfl

/--
What an action does depends on the time for the whole run only through what the world answers.
-/
theorem Action.run_within (a : Action) (frame : Frame) :
    a.run (settings.within ms) frame = a.run settings frame := by
  rw [run]
  rw [enter_within, body_within]
  rfl

end

/-- The settings and the cancellation of a run that is interrupted at a time, with its fault. -/
inductive InterruptedAt (settings : Settings) (c : Nat) :
    Settings → Cancellation → ActionFault → Prop
  | cancelled : InterruptedAt settings c settings { at? := some c } .cancelled
  | deadline : InterruptedAt settings c (settings.within c) {} (.timeout .action c)

namespace InterruptedAt

variable {settings settings' : Settings} {cancellation : Cancellation} {fault : ActionFault}
  {c : Nat}

theorem registry (h : InterruptedAt settings c settings' cancellation fault) :
    settings'.registry = settings.registry := by
  cases h <;> rfl

theorem run (h : InterruptedAt settings c settings' cancellation fault) (a : Action)
    (frame : Frame) :
    a.run settings' frame = a.run settings frame := by
  cases h with
  | cancelled => rfl
  | deadline => exact a.run_within settings c frame

theorem quiet (h : InterruptedAt settings c settings' cancellation fault) {t : Nat} (ht : t < c)
    (hd : t < settings.limits.actionTimeout) :
    Signals.QuietUntil { cancellation with deadline := settings'.limits.actionTimeout } t := by
  cases h with
  | cancelled => exact ⟨fun _ => rfl, fun _ hc => Option.some.inj hc ▸ ht, hd⟩
  | deadline => exact ⟨fun _ => rfl, fun _ hc => (nomatch hc), ht⟩

theorem fires (h : InterruptedAt settings c settings' cancellation fault)
    (hc : c ≤ settings.limits.actionTimeout) : ∃ cause : Interrupt, cause.fault = fault ∧
      Signals.Fires { cancellation with deadline := settings'.limits.actionTimeout } c cause := by
  cases h with
  | cancelled => exact ⟨.cancelled, rfl, .cancelled (fun _ => rfl) rfl hc⟩
  | deadline => exact ⟨.deadline c, rfl, .deadline (fun _ => rfl) rfl rfl⟩

end InterruptedAt

theorem Ledger.entries_isPrefix (l : Ledger) (fault : ActionFault) (frame : Frame) :
    l.entries <+: (l.interrupted fault frame).2 := by
  rw [Ledger.interrupted]
  cases l.inFlight with
  | none => exact List.prefix_refl _
  | some f => exact List.prefix_append _ _

variable {σ : Type}

theorem execute_entries_isPrefix (settings : Settings) (page : Page σ) (state : σ)
    (cancellation : Cancellation) (a : Action) (params env : Json) :
    entriesAt [] (eventsOf (history settings page state cancellation a params env)) <+:
      (execute settings page state cancellation a params env).1.trace := by
  rw [entriesAt_nil]
  cases execute_goes settings page state cancellation a params env with
  | unbound root events reported =>
    rw [events]
    exact List.nil_prefix
  | ended root course result trace => exact trace ▸ List.prefix_refl _
  | @interrupted frame cause e recorded root course stops ledger result trace =>
    have hpre := (Ledger.after {} (eventsOf (history settings page state cancellation a params
      env))).entries_isPrefix cause.fault frame
    rw [ledger, Ledger.after_entries] at hpre
    rw [trace]
    exact hpre

theorem Action.report_interrupted {settings : Settings} {a : Action} {frame : Frame} {page : Page σ}
    {s : Signals} {m : Moment σ} {cause : Interrupt} (hm : m.ledger = {})
    (h : ((a.run settings frame).run page s m).1 = .error cause) :
    let es := eventsOf ((a.run settings frame).asked page s m)
    let k := (entriesAt [] es).length
    let e := frame.error cause.fault (some k)
    ∃ step, a.steps[k]? = some step ∧ startsAt [] es = a.steps.zipIdx.take (k + 1) ∧
      frame.report ((a.run settings frame).run page s m) = {
        result := .error e
        trace := entriesAt [] es ++
          [{ index := k, kind := step.kind, attempts := (attemptsAt k [] es).length,
             outcome := .failed e }]
        calls := m.calls ++ callsOf ((a.run settings frame).asked page s m)
        elapsed := ((a.run settings frame).run page s m).2.now } := by
  intro es k e
  have hcourse := (Action.run_follows settings a frame).of_run page s m
  rw [h] at hcourse
  have hwalks : Walks a.steps 0 es .cut := hcourse.tells.2
  obtain ⟨f, step, hs, hi, hshows, hledger⟩ := hwalks.ledger
  refine ⟨step, hs, hwalks.starts, ?_⟩
  have hattempts : f.attempts = (attemptsAt f.index [] es).length := by
    rw [hshows.attempts, List.length_range']
  have hf : f = ⟨k, step.kind, (attemptsAt k [] es).length⟩ := by
    calc
      f = ⟨f.index, f.kind, f.attempts⟩ := rfl
      _ = ⟨f.index, step.kind, (attemptsAt f.index [] es).length⟩ := by
        rw [← hattempts, hshows.kind]
      _ = ⟨k, step.kind, (attemptsAt k [] es).length⟩ := by rw [hi]
  have hafter := (a.run settings frame).run_ledger page s m
  have hcalls := (a.run settings frame).run_calls page s m
  rw [hm, hledger, hf] at hafter
  generalize (a.run settings frame).run page s m = run at h hafter hcalls ⊢
  obtain ⟨result, m'⟩ := run
  cases h
  dsimp only [Frame.report] at hafter hcalls ⊢
  rw [hafter, hcalls]
  rfl

/-- The report of a run that a signal cuts short, from the run that no signal reaches. -/
theorem Action.report_cut {settings : Settings} {a : Action} {frame : Frame} {page : Page σ}
    {s s' : Signals} {state : σ} {c : Nat} {cause : Interrupt}
    (hs : s.QuietUntil ((a.run settings frame).run page s { page := state }).2.now)
    (hs' : s'.Fires c cause)
    (hend : c < ((a.run settings frame).run page s { page := state }).2.now)
    (still : ∀ q ∈ (a.run settings frame).asked page s { page := state }, q.1 ≠ c) :
    let whole := (a.run settings frame).asked page s { page := state }
    let before := eventsOf (whole.filter (·.1 < c))
    let k := (entriesAt [] before).length
    let e := frame.error cause.fault (some k)
    ∃ step, a.steps[k]? = some step ∧ startsAt [] before = a.steps.zipIdx.take (k + 1) ∧
      entriesAt [] before <+: entriesAt [] (eventsOf whole) ∧
      frame.report ((a.run settings frame).run page s' { page := state }) = {
        result := .error e
        trace := entriesAt [] before ++
          [{ index := k, kind := step.kind, attempts := (attemptsAt k [] before).length,
             outcome := .failed e }]
        calls := (callsOf whole).filter (·.1 < c)
        elapsed := c } := by
  intro whole before k e
  have hnow : 0 < c := by
    have hover := Routine.asked_or_over page s (a.run settings frame) { page := state }
    rcases hover with ⟨r, hr⟩ | hover
    · exact Nat.pos_of_ne_zero fun hc => still _ hr hc.symm
    · exact absurd (Nat.lt_of_lt_of_eq hend hover) (Nat.not_lt_zero c)
  obtain ⟨herror, htime, hcut⟩ := Routine.run_cut rfl hs hs' hnow hend still
  obtain ⟨step, hstep, hstarts, hreport⟩ := report_interrupted rfl herror
  rw [htime, hcut.eq_filter, callsOf_filter _ (· < c)] at hreport
  rw [hcut.eq_filter] at hstep hstarts
  refine ⟨step, hstep, hstarts, ?_, hreport⟩
  have hpre : whole.filter (·.1 < c) <+: whole := hcut.eq_filter ▸ hcut.isPrefix
  exact (((hpre.filterMap _).filterMap _).filterMap _).filterMap _

/--
A run that is interrupted at a time at which nothing happens in the uninterrupted run is the
uninterrupted run if that ends before, and otherwise the uninterrupted run up to this time. Its
trace is then what was recorded before, and a failure of the step that was at work, with the
attempts at it that were begun before.
-/
theorem execute_interrupted {settings settings' : Settings} {cancellation : Cancellation}
    {fault : ActionFault} {c : Nat} (page : Page σ) (state : σ) (a : Action) (params env : Json)
    (h : InterruptedAt settings c settings' cancellation fault)
    (intime :
      (execute settings page state {} a params env).1.elapsed < settings.limits.actionTimeout)
    (still : ∀ q ∈ history settings page state {} a params env, q.1 ≠ c) :
    let whole := execute settings page state {} a params env
    let cut := execute settings' page state cancellation a params env
    let before := eventsOf ((history settings page state {} a params env).filter (·.1 < c))
    let k := (entriesAt [] before).length
    let e := ActionError.raised fault a.fullName (some k)
    (whole.1.elapsed < c → cut = whole) ∧
      (c < whole.1.elapsed → ∃ step, a.steps[k]? = some step ∧
        startsAt [] before = a.steps.zipIdx.take (k + 1) ∧
        entriesAt [] before = whole.1.trace.take k ∧
        cut.1 = {
          result := .error e
          trace := entriesAt [] before ++
            [{ index := k, kind := step.kind, attempts := (attemptsAt k [] before).length,
               outcome := .failed e }]
          calls := whole.1.calls.filter (·.1 < c)
          elapsed := c }) := by
  cases hroot : Frame.root settings.registry a params env with
  | error refusal =>
    have hroot' := hroot
    rw [← h.registry] at hroot'
    have hwhole := execute_unbound page state {} hroot
    have hcut := execute_unbound page state cancellation hroot'
    exact ⟨fun _ => hcut.trans hwhole.symm, fun hc => absurd hc (by simp [hwhole])⟩
  | ok frame =>
    have hroot' := hroot
    rw [← h.registry] at hroot'
    have hpre := execute_entries_isPrefix settings page state {} a params env
    have hwhole := execute_bound page state {} hroot
    have hcut := execute_bound page state cancellation hroot'
    have helapsed := (congrArg (·.1.elapsed) hwhole).trans (frame.report_elapsed _)
    have hcalls := (congrArg (·.1.calls) hwhole).trans ((frame.report_calls _).trans
      ((a.run settings frame).run_calls page _ _))
    rw [h.run] at hcut
    rw [helapsed] at intime
    rw [history_bound page state {} hroot] at still hpre ⊢
    have hquiet : Signals.QuietUntil { deadline := settings.limits.actionTimeout }
        ((a.run settings frame).run page { deadline := settings.limits.actionTimeout }
          { page := state }).2.now :=
      ⟨fun _ => rfl, fun _ hc => (nomatch hc), intime⟩
    refine ⟨fun hlt => ?_, fun hlt => ?_⟩
    · rw [helapsed] at hlt
      rw [Routine.run_eq_of_quiet rfl hquiet (h.quiet hlt intime)] at hcut
      exact hcut.trans hwhole.symm
    · rw [helapsed] at hlt
      obtain ⟨cause, rfl, hfires⟩ := h.fires (Nat.le_of_lt (Nat.lt_trans hlt intime))
      obtain ⟨step, hstep, hstarts, hrecorded, hreport⟩ :=
        Action.report_cut hquiet hfires hlt still
      refine ⟨step, hstep, hstarts, ?_, ?_⟩
      · exact List.prefix_iff_eq_take.1 (hrecorded.trans hpre)
      · rw [hcut, hcalls]
        refine hreport.trans ?_
        rw [Frame.error, Frame.root_action hroot]
        rfl

def Page.failing (ms : Nat) : Page Unit where
  send _ _ _ := (ms, ())
  settle _ _ _ := (.error (.failed "down"), ())

def visits : Action where
  name := "visits"
  steps := [
    { kind := .visit, args := [("url", .string "/a")], onError := .ignore },
    { kind := .visit, args := [("url", .string "/b")], retries := 2, retryDelay := 100 }]

/-- A cancellation in the pause after the second attempt at the second visit. -/
theorem execute_interrupted_in_pause :
    let cut := (execute {} (Page.failing 10) () { at? := some 150 } visits .null .null).1
    cut.elapsed = 150 ∧ cut.trace.map (·.attempts) = [1, 2] ∧
      cut.result = .error (.raised .cancelled "visits" (some 1)) := by
  have h : InterruptedAt {} 150 {} { at? := some 150 } .cancelled := .cancelled
  obtain ⟨step, -, -, -, hcut⟩ := (execute_interrupted (Page.failing 10) () visits .null .null h
    (by decide +kernel) (by decide +kernel)).2 (by decide +kernel)
  generalize hbefore : eventsOf ((history {} (Page.failing 10) () {} visits .null
    .null).filter (·.1 < 150)) = before at hcut
  have hrecorded : (entriesAt [] before).map (·.attempts) = [1] := by
    rw [← hbefore]
    decide +kernel
  have hattempts : (attemptsAt 1 [] before).length = 2 := by
    rw [← hbefore]
    decide +kernel
  have hk : (entriesAt [] before).length = 1 := by
    simpa using congrArg List.length hrecorded
  rw [hk] at hcut
  dsimp only
  rw [hcut]
  refine ⟨rfl, ?_, rfl⟩
  rw [List.map_append, hrecorded, List.map_singleton, hattempts]
  rfl

end PageFlow
