import PageFlow.Proofs.Backoff
import PageFlow.Proofs.Routine.Composition
import PageFlow.Proofs.Run.Follow
import PageFlow.Proofs.Run.Interruption
import PageFlow.Proofs.Run.Promptness

namespace PageFlow

variable {σ : Type}

/-- An attempt at a step: where it starts, what it comes to, and where it ends. -/
structure Attempt (σ : Type) where
  start : Moment σ
  result : Outcome Json
  finish : Moment σ

namespace Attempt

def nested (t : Attempt σ) : List Entry :=
  t.finish.ledger.entries

def Repeatable (t : Attempt σ) : Prop :=
  ∃ e, t.result = .error e ∧ e.isFatal = false

theorem not_repeatable_of_ok {t : Attempt σ} {value : Json} (h : t.result = .ok value) :
    ¬ t.Repeatable := by
  rintro ⟨e, he, -⟩
  cases h.symm.trans he

theorem not_repeatable_of_fatal {t : Attempt σ} {e : ActionError} (h : t.result = .error e)
    (fatal : e.isFatal) : ¬ t.Repeatable := by
  rintro ⟨e', he, mild⟩
  cases h.symm.trans he
  simp [fatal] at mild

/-- The attempt is a run of what the step does, with records of its own. -/
structure Runs (t : Attempt σ) (once : Routine (Outcome Json)) (page : Page σ) (s : Signals) :
    Prop where
  start : t.start.ledger = {}
  run : once.run page s t.start = (.ok t.result, t.finish)

end Attempt

/--
The attempts at a step from a moment on: all but the last failed and may be repeated, the last may
not or there were the most that are allowed, and each but the first starts in the state in which the
one before has left the run, a pause later.
-/
structure Schedule (once : Routine (Outcome Json)) (page : Page σ) (s : Signals)
    (pause : Nat → Nat) (most : Nat) (m : Moment σ) (tries : List (Attempt σ)) : Prop where
  runs : ∀ t ∈ tries, t.Runs once page s
  first : ∀ t, tries[0]? = some t → t.start = m
  paused : ∀ k t u, tries[k]? = some t → tries[k + 1]? = some u →
    u.start = { t.finish with now := t.finish.now + pause k, ledger := {} }
  repeated : ∀ k t, tries[k]? = some t → k + 1 < tries.length → t.Repeatable
  last : ∀ t, tries.getLast? = some t → t.Repeatable → tries.length = most
  few : tries.length ≤ most

namespace Schedule

variable {once : Routine (Outcome Json)} {page : Page σ} {s : Signals} {pause : Nat → Nat}
  {most : Nat} {m : Moment σ}

theorem one {t : Attempt σ} (runs : t.Runs once page s) (start : t.start = m)
    (last : t.Repeatable → most = 0) : Schedule once page s pause (most + 1) m [t] where
  runs := by simpa using runs
  first := by simpa using start
  paused k t u _ hu := by cases hu
  repeated k t _ hk := by simp at hk
  last u hu hrepeatable := by
    cases hu
    rw [last hrepeatable]
    rfl
  few := Nat.le_add_left 1 most

theorem cons {t : Attempt σ} {tries : List (Attempt σ)} {later : Moment σ}
    (runs : t.Runs once page s) (start : t.start = m) (mild : t.Repeatable)
    (hlater : later = { t.finish with now := t.finish.now + pause 0, ledger := {} })
    (hne : tries ≠ [])
    (h : Schedule once page s (fun k => pause (k + 1)) most later tries) :
    Schedule once page s pause (most + 1) m (t :: tries) := by
  constructor
  · exact List.forall_mem_cons.2 ⟨runs, h.runs⟩
  · simpa using start
  · intro k u v hu hv
    cases k with
    | zero =>
      cases hu
      exact (h.first v hv).trans hlater
    | succ k => exact h.paused k u v hu hv
  · intro k u hu hk
    cases k with
    | zero =>
      cases hu
      exact mild
    | succ k => exact h.repeated k u hu (Nat.lt_of_succ_lt_succ hk)
  · intro u hu hrepeatable
    rw [List.getLast?_cons_of_ne_nil hne] at hu
    exact congrArg (· + 1) (h.last u hu hrepeatable)
  · exact Nat.succ_le_succ h.few

end Schedule

namespace Step

variable {page : Page σ} {s : Signals}

structure Settled (once : Routine (Outcome Json)) (page : Page σ) (s : Signals)
    (pause : Nat → Nat) (most count : Nat) (m : Moment σ) (tries : List (Attempt σ))
    (last : Attempt σ) (ended : Attempted) (after : Moment σ) : Prop where
  schedule : Schedule once page s pause most m.fresh tries
  final : tries.getLast? = some last
  ended : ended = ⟨last.result, count + tries.length - 1, last.nested⟩
  fresh : after.fresh = last.finish.fresh
  entries : after.ledger.entries = m.ledger.entries

/--
What a run of the attempts at a step comes to: a signal interrupts it or stops it after a pause, or
the attempts are over.
-/
inductive Tried (once : Routine (Outcome Json)) (page : Page σ) (s : Signals)
    (pause : Nat → Nat) (most count : Nat) (halt : Interrupt → ActionError) (m : Moment σ)
    (run : Except Interrupt Attempted × Moment σ) : Prop
  | interrupted {cause : Interrupt} (result : run.1 = .error cause)
  | halted {cause : Interrupt} {ended : Attempted} (result : run.1 = .ok ended)
    (raised : ended.result = .error (halt cause)) (stopped : run.2.stop? s = some cause)
  | settled {tries : List (Attempt σ)} {last : Attempt σ} {ended : Attempted}
    (result : run.1 = .ok ended)
    (settled : Settled once page s pause most count m tries last ended run.2)

section

variable {once : Routine (Outcome Json)} {pause : Nat → Nat} {most count : Nat}
  {m after : Moment σ} {t : Attempt σ}

theorem Settled.one (runs : t.Runs once page s) (start : t.start = m.fresh)
    (last : t.Repeatable → most = 0) (fresh : after.fresh = t.finish.fresh)
    (entries : after.ledger.entries = m.ledger.entries) :
    Settled once page s pause (most + 1) count m [t] t ⟨t.result, count, t.nested⟩ after where
  schedule := .one runs start last
  final := rfl
  ended := rfl
  fresh := fresh
  entries := entries

theorem Settled.cons {tries : List (Attempt σ)} {last : Attempt σ} {ended : Attempted}
    {later : Moment σ} (runs : t.Runs once page s) (start : t.start = m.fresh) (mild : t.Repeatable)
    (fresh : later.fresh = { t.finish with now := t.finish.now + pause 0, ledger := {} })
    (entries : later.ledger.entries = m.ledger.entries)
    (h : Settled once page s (fun k => pause (k + 1)) most (count + 1) later tries last ended
      after) : Settled once page s pause (most + 1) count m (t :: tries) last ended after where
  schedule :=
    have hne : tries ≠ [] := by
      rintro rfl
      cases h.final
    h.schedule.cons runs start mild fresh hne
  final := by
    rw [List.getLast?_cons, h.final]
    rfl
  ended := by
    rw [h.ended, List.length_cons]
    congr 1
    omega
  fresh := h.fresh
  entries := h.entries.trans entries

theorem Tried.cons {halt : Interrupt → ActionError} {later : Moment σ}
    {run : Except Interrupt Attempted × Moment σ} (runs : t.Runs once page s)
    (start : t.start = m.fresh) (mild : t.Repeatable)
    (fresh : later.fresh = { t.finish with now := t.finish.now + pause 0, ledger := {} })
    (entries : later.ledger.entries = m.ledger.entries)
    (h : Tried once page s (fun k => pause (k + 1)) most (count + 1) halt later run) :
    Tried once page s pause (most + 1) count halt m run := by
  cases h with
  | interrupted result => exact .interrupted result
  | halted result raised stopped => exact .halted result raised stopped
  | settled result settled => exact .settled result (settled.cons runs start mild fresh entries)

end

theorem tried_of_rest {policy : Backoff} {index left count : Nat} {once : Routine (Outcome Json)}
    {halt : Interrupt → ActionError} {page : Page σ} {s : Signals} (m : Moment σ)
    (rest : ∀ below, left = below + 1 → ∀ later : Moment σ,
      Tried once page s (fun k => policy.delay (count + 1 + k)) (below + 1) (count + 1) halt later
        ((attempts policy index once halt below (count + 1)).run page s later)) :
    Tried once page s (fun k => policy.delay (count + k)) (left + 1) count halt m
      ((attempts policy index once halt left count).run page s m) := by
  rw [attempts, Routine.run_note_bind, Routine.run_collect_bind, Moment.fresh_noted]
  cases hrun : once.run page s m.fresh with
  | mk r m' =>
  cases r with
  | error cause => exact .interrupted rfl
  | ok r =>
  have hruns : Attempt.Runs ⟨m.fresh, r, m'⟩ once page s := ⟨rfl, hrun⟩
  cases r with
  | ok value =>
    have hlast := Attempt.not_repeatable_of_ok (t := ⟨m.fresh, .ok value, m'⟩) rfl
    exact .settled rfl (.one hruns rfl (fun h => absurd h hlast) rfl rfl)
  | error e =>
  dsimp only
  split
  next hfatal =>
    have hlast := Attempt.not_repeatable_of_fatal (t := ⟨m.fresh, .error e, m'⟩) rfl hfatal
    exact .settled rfl (.one hruns rfl (fun h => absurd h hlast) rfl rfl)
  next hmild =>
  cases left with
  | zero => exact .settled rfl (.one hruns rfl (fun _ => rfl) rfl rfl)
  | succ left =>
    have hrepeatable : Attempt.Repeatable ⟨m.fresh, .error e, m'⟩ :=
      ⟨e, rfl, eq_false_of_ne_true hmild⟩
    have hpauses : (fun k => policy.delay (count + 1 + k)) =
        fun k => policy.delay (count + (k + 1)) := by
      funext k
      rw [Nat.add_assoc, Nat.add_comm 1 k]
    -- The attempts end in the pause, or at the check after it, or the next one starts right then.
    generalize hm : ({ m' with ledger := (m.noted (.attempted index count)).ledger } :
      Moment σ) = ended
    cases hi : ended.interruption? s (policy.delay count) with
    | some i =>
      rw [Routine.run_interrupted_bind hi]
      exact .interrupted rfl
    | none =>
      rw [Routine.run_pause_bind hi, Routine.run_status_bind]
      split
      next cause hcause => exact .halted rfl rfl hcause
      next =>
        have hrest := rest left rfl { ended with now := ended.now + policy.delay count }
        rw [hpauses] at hrest
        subst hm
        apply Tried.cons hruns rfl hrepeatable _ _ hrest
        · rfl
        · rfl

theorem attempts_tried (policy : Backoff) (index : Nat) (once : Routine (Outcome Json))
    (halt : Interrupt → ActionError) (page : Page σ) (s : Signals) (left count : Nat)
    (m : Moment σ) :
    Tried once page s (fun k => policy.delay (count + k)) (left + 1) count halt m
      ((attempts policy index once halt left count).run page s m) := by
  induction left generalizing count m with
  | zero => exact tried_of_rest m fun below h => nomatch h
  | succ left ih =>
    apply tried_of_rest m
    intro below hbelow
    cases hbelow
    exact ih (count + 1)

/--
What becomes of a step with what its last attempt came to: the outcome that is recorded, the records
of the fallback list, and the result of the step. `rescue` is the run of the fallback list.
-/
inductive Handled (step : Step) (frame : Frame) (index : Nat) (progress : Progress)
    (rescue : Except Interrupt (Outcome (Progress × Json)) × Moment σ) :
    Outcome Json → StepOutcome → List Entry → Outcome (Progress × Option Json) → Prop
  | succeeded {value : Json} : Handled step frame index progress rescue (.ok value)
      (.succeeded value) [] (.ok (progress.recordAs step.output value, some value))
  | aborted {e : ActionError} (final : e.isFatal ∨ step.onError = .abort) :
      Handled step frame index progress rescue (.error e) (.failed e) []
        (.error (e.failStep frame.action index))
  | ignored {e : ActionError} (mild : ¬ e.isFatal) (policy : step.onError = .ignore) :
      Handled step frame index progress rescue (.error e) (.failed e) [] (.ok (progress, none))
  | rescued {e : ActionError} {after : Progress} {value : Json} (mild : ¬ e.isFatal)
      (policy : step.onError = .fallback) (given : rescue.1 = .ok (.ok (after, value))) :
      Handled step frame index progress rescue (.error e) (.rescued value e)
        rescue.2.ledger.entries (.ok (after.recordAs step.output value, some value))
  | unrescued {e fault : ActionError} (mild : ¬ e.isFatal) (policy : step.onError = .fallback)
      (given : rescue.1 = .ok (.error fault)) :
      Handled step frame index progress rescue (.error e) (.failed fault)
        rescue.2.ledger.entries (.error (fault.failStep frame.action index))

inductive Closed (step : Step) (frame : Frame) (index : Nat) (progress : Progress)
    (rescue : Except Interrupt (Outcome (Progress × Json)) × Moment σ)
    (entry : StepOutcome → List Entry → Entry) (last : Outcome Json) (m : Moment σ)
    (run : Except Interrupt (Outcome (Progress × Option Json)) × Moment σ) : Prop
  | interrupted {cause : Interrupt} (result : run.1 = .error cause)
  | recorded {outcome : StepOutcome} {more : List Entry}
    {result : Outcome (Progress × Option Json)} (handled :
      Handled step frame index progress rescue last outcome more result)
    (result : run.1 = .ok result)
    (entries : run.2.ledger.entries = m.ledger.entries ++ [entry outcome more])

theorem recover_closed (step : Step) (frame : Frame) (index : Nat)
    (entry : StepOutcome → List Entry → Entry)
    (rescue : Progress → Routine (Outcome (Progress × Json))) (e : ActionError)
    (progress : Progress) (page : Page σ) (s : Signals) (m : Moment σ) :
    Closed step frame index progress ((rescue progress).run page s m.fresh) entry (.error e) m
      ((step.recover frame index entry rescue e progress).run page s m) := by
  rw [recover]
  split
  · next hfatal => exact .recorded (.aborted (.inl hfatal)) rfl rfl
  next hmild =>
  split
  · next habort => exact .recorded (.aborted (.inr habort)) rfl rfl
  · next hignore => exact .recorded (.ignored hmild hignore) rfl rfl
  next hfallback =>
  rw [Routine.run_collect_bind]
  cases hrun : (rescue progress).run page s m.fresh with
  | mk r m' =>
  cases r with
  | error cause => exact .interrupted rfl
  | ok r =>
    cases r with
    | error fault => exact .recorded (.unrescued hmild hfallback rfl) rfl rfl
    | ok given => exact .recorded (.rescued hmild hfallback rfl) rfl rfl

structure Retried (step : Step) (settings : Settings) (enter : Enter) (frame : Frame) (index : Nat)
    (args : Table Json) (progress : Progress) (page : Page σ) (s : Signals) (m : Moment σ)
    (tries : List (Attempt σ)) (last : Attempt σ) (entry : Entry) (more : List Entry)
    (result : Outcome (Progress × Option Json)) (after : Moment σ) : Prop where
  schedule : Schedule (step.bounded settings.limits enter frame index args) page s
    (fun k => min (step.retryDelay * 2 ^ min k 31) settings.limits.maxRetryDelay)
    (min (step.retries + 1) (2 ^ 32 - 1)) m.fresh tries
  final : tries.getLast? = some last
  entries : after.ledger.entries = m.ledger.entries ++ [entry]
  at_index : entry.index = index
  attempts : entry.attempts = tries.length
  nested : entry.nested = last.nested ++ more
  handled : Handled step frame index progress.begin
    ((runAll settings enter frame 0 step.fallback progress.begin .null).run page s
      last.finish.fresh) last.result entry.outcome more result

/-- What a run of a step comes to if its condition and its arguments let it run. -/
inductive Proceeds (step : Step) (settings : Settings) (enter : Enter) (frame : Frame) (index : Nat)
    (args : Table Json) (progress : Progress) (page : Page σ) (s : Signals) (m : Moment σ)
    (run : Except Interrupt (Outcome (Progress × Option Json)) × Moment σ) : Prop
  | interrupted {cause : Interrupt} (result : run.1 = .error cause)
  | halted {cause : Interrupt} (result : run.1 = .ok (.error (frame.halted cause index)))
    (stopped : run.2.stop? s = some cause)
  | settled {tries : List (Attempt σ)} {last : Attempt σ} {entry : Entry} {more : List Entry}
    {result : Outcome (Progress × Option Json)} (ended : run.1 = .ok result)
    (retried : Retried step settings enter frame index args progress page s m tries last entry more
      result run.2)

section

variable {settings : Settings} {enter : Enter} {frame : Frame} {index : Nat} {step : Step}
  {progress : Progress} {args : Table Json}
  {rescue : Progress → Routine (Outcome (Progress × Json))}

theorem run_lifecycle_of_passes {page : Page σ} {s : Signals} {m : Moment σ}
    (goes : m.stop? s = none) (room : progress.started < settings.limits.maxSteps)
    (passes : step.Passes settings.limits (frame.vars progress.begin)) :
    (step.lifecycle settings enter frame index rescue progress).run page s m =
      (step.execute settings enter frame index rescue progress.begin).run page s
        (m.noted (.begun index step progress)) := by
  rw [lifecycle, Routine.run_status_bind, goes]
  rcases passes with holds | ⟨⟨e, broken⟩, policy⟩
  · simp only [Nat.not_le.2 room, holds, if_false, Routine.run_note_bind]
  · simp only [Nat.not_le.2 room, broken, policy, if_false, Routine.run_note_bind]

theorem Closed.proceeds {page : Page σ} {s : Signals} {m m' : Moment σ} {tries : List (Attempt σ)}
    {last : Attempt σ} {run : Except Interrupt (Outcome (Progress × Option Json)) × Moment σ}
    (schedule : Schedule (step.bounded settings.limits enter frame index args) page s
      (fun k => min (step.retryDelay * 2 ^ min k 31) settings.limits.maxRetryDelay)
      (min (step.retries + 1) (2 ^ 32 - 1)) m.fresh tries)
    (final : tries.getLast? = some last) (entries : m'.ledger.entries = m.ledger.entries)
    (h : Closed step frame index progress.begin
      ((runAll settings enter frame 0 step.fallback progress.begin .null).run page s
        last.finish.fresh) (step.entry settings index args ⟨last.result, tries.length, last.nested⟩)
      last.result m' run) :
    Proceeds step settings enter frame index args progress page s m run := by
  cases h with
  | interrupted result => exact .interrupted result
  | recorded handled result recorded =>
    exact .settled result ⟨schedule, final, recorded.trans (congrArg (· ++ _) entries), rfl, rfl,
      rfl, handled⟩

/--
A step that its condition and its arguments let run, in a run that is not interrupted: attempts are
made up to the first that succeeds or fails for good, and at most one more than its retries; the
pauses between them double up to a cap; and the step is recorded with the number of the attempts,
the records of the last one, and what became of its value or its failure. The cap is a span of time
that 64 bits hold.
-/
theorem run_proceeds (page : Page σ) (s : Signals) (m : Moment σ)
    (room : progress.started < settings.limits.maxSteps)
    (runs : step.Runs settings.limits (frame.vars progress.begin) args)
    (span : settings.limits.maxRetryDelay < 2 ^ 64) :
    Proceeds step settings enter frame index args progress page s m
      ((Step.run settings enter frame index step progress).run page s m) := by
  rw [run_eq]
  cases hstop : m.stop? s with
  | some cause =>
    rw [lifecycle, Routine.run_status_bind, hstop]
    exact .halted rfl hstop
  | none =>
  rw [run_lifecycle_of_passes hstop room runs.1, execute, runs.2]
  dsimp only
  rw [Routine.run_note_bind, attemptAll]
  have hpauses : (fun k => (Backoff.ofStep step settings.limits.maxRetryDelay).delay (1 + k)) =
      fun k => min (step.retryDelay * 2 ^ min k 31) settings.limits.maxRetryDelay := by
    funext k
    rw [Backoff.delay_eq span, Nat.add_sub_cancel_left]
    rfl
  have hmost : (Backoff.ofStep step settings.limits.maxRetryDelay).maxAttempts - 1 + 1 =
      min (step.retries + 1) (2 ^ 32 - 1) := by
    change min (step.retries + 1) (2 ^ 32 - 1) - 1 + 1 = _
    omega
  have htried := attempts_tried (Backoff.ofStep step settings.limits.maxRetryDelay) index
    (step.bounded settings.limits enter frame index args) (frame.halted · index) page s
    ((Backoff.ofStep step settings.limits.maxRetryDelay).maxAttempts - 1) 1
    ((m.noted (.begun index step progress)).noted (.dispatched index step.kind))
  rw [Routine.run_bind]
  generalize Routine.run page s (attempts _ _ _ _ _ _) _ = run at htried ⊢
  obtain ⟨r, m'⟩ := run
  cases htried with
  | interrupted result =>
    cases result
    exact .interrupted rfl
  | @halted cause ended result raised stopped =>
    cases result
    dsimp only
    have hends := frame.halted_endsRun cause index
    rw [raised]
    dsimp only
    rw [recover, if_pos hends.isFatal, hends.failStep]
    exact .halted rfl stopped
  | @settled tries last _ result settled =>
    cases result
    obtain ⟨schedule, final, rfl, fresh, entries⟩ := settled
    rw [hpauses, hmost] at schedule
    dsimp only at fresh entries ⊢
    apply Closed.proceeds (m := m) schedule final entries
    rw [Nat.add_sub_cancel_left, ← fresh]
    cases last.result with
    | ok value => exact .recorded .succeeded rfl rfl
    | error e =>
      exact recover_closed step frame index _
        (fun p => runAll settings enter frame 0 step.fallback p .null) e progress.begin page s m'

end

def revisit : Step :=
  { kind := .visit, args := [("url", .string "/b")], retries := 2, retryDelay := 100 }

/-- On a page that is down, each visit takes its time, and the second pause is the longer one. -/
theorem run_proceeds_revisit :
    let frame := Frame.ofAction {} visits 0 [] []
    let run := (Step.run {} (Action.enter {} 10) frame 0 revisit {}).run (Page.failing 10)
      { deadline := 60000 } { page := () }
    run.2.now = 10 + 100 + 10 + 200 + 10 ∧ ∃ tries last entry more result, tries.length = 3 ∧
      Retried revisit {} (Action.enter {} 10) frame 0 revisit.args {} (Page.failing 10)
        { deadline := 60000 } { page := () } tries last entry more result run.2 := by
  intro frame run
  have hentries : run.2.ledger.entries.map (·.attempts) = [3] := by decide +kernel
  have hruns : revisit.Runs {} (frame.vars (Progress.begin {})) revisit.args := ⟨.inl rfl, rfl⟩
  have hproceeds : Proceeds revisit {} (Action.enter {} 10) frame 0 revisit.args {}
      (Page.failing 10) { deadline := 60000 } { page := () } run :=
    run_proceeds (Page.failing 10) _ _ (by decide) hruns (by decide)
  refine ⟨by decide +kernel, ?_⟩
  cases hproceeds with
  | interrupted result =>
    have hover : run.1.toBool = true := by decide +kernel
    simp [result, Except.toBool] at hover
  | halted result stopped =>
    have hgoes : run.2.stop? { deadline := 60000 } = none := by decide +kernel
    simp [stopped] at hgoes
  | @settled tries last entry more result ended retried =>
    refine ⟨tries, last, entry, more, result, ?_, retried⟩
    rw [retried.entries] at hentries
    exact retried.attempts.symm.trans (List.singleton_inj.1 hentries)

end Step

end PageFlow
