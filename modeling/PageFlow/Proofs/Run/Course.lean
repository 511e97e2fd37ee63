import PageFlow.Proofs.Routine.Always

namespace PageFlow

/-- A part of a run, `levels` above the limit on nesting. -/
inductive Part where
  /-- An action in its frame. -/
  | action (levels : Nat) (frame : Frame) (a : Action)
  /-- Steps in order from an index. -/
  | steps (levels : Nat) (frame : Frame) (index : Nat) (steps : List Step) (progress : Progress)
      (last : Json)
  | step (levels : Nat) (frame : Frame) (index : Nat) (step : Step) (progress : Progress)
  /-- The attempts at a step from the one with number `count`, of which `left` more may follow. -/
  | attempts (levels : Nat) (frame : Frame) (index : Nat) (step : Step) (args : Table Json)
      (left count : Nat)
  /-- What follows the attempts at a step. -/
  | ending (levels : Nat) (frame : Frame) (index : Nat) (step : Step) (args : Table Json)
      (progress : Progress) (ended : Attempted)
  | bounded (levels : Nat) (frame : Frame) (index : Nat) (step : Step) (args : Table Json)
  /-- One attempt without its limit. -/
  | dispatch (levels : Nat) (frame : Frame) (index : Nat) (step : Step) (args : Table Json)

@[reducible] def Part.Result : Part → Type
  | action .. | bounded .. | dispatch .. => Outcome Json
  | steps .. => Outcome (Progress × Json)
  | step .. | ending .. => Outcome (Progress × Option Json)
  | attempts .. => Attempted

theorem of_drop_eq_cons {α : Type} {l rest : List α} {i : Nat} {x : α}
    (h : l.drop i = x :: rest) : l[i]? = some x ∧ l.drop (i + 1) = rest := by
  constructor
  · have hhead := congrArg (·[0]?) h
    simpa only [List.getElem?_drop, Nat.add_zero, List.getElem?_cons_zero] using hhead
  · have htail := congrArg List.tail h
    simpa only [List.tail_drop, List.tail_cons] using htail

/-- News from the place that the events are seen from. -/
abbrev Event.here (news : News) : Event :=
  .noted { news }

namespace Step

def Passes (step : Step) (limits : Limits) (vars : Variables) : Prop :=
  step.judge limits vars = .holds ∨
    (∃ e, step.judge limits vars = .broken e) ∧ limits.conditionErrors = .proceed

def Skips (step : Step) (limits : Limits) (vars : Variables) : Prop :=
  step.judge limits vars = .fails ∨
    (∃ e, step.judge limits vars = .broken e) ∧ limits.conditionErrors = .skip

/-- The arguments with which a step runs, if its condition and its arguments let it. -/
def Runs (step : Step) (limits : Limits) (vars : Variables) (args : Table Json) : Prop :=
  step.Passes limits vars ∧ interpolateFields vars step.args = .ok args

/-- The expression that keeps a step from its first attempt. -/
def Breaks (step : Step) (limits : Limits) (vars : Variables) (e : ExprError) : Prop :=
  step.judge limits vars = .broken e ∧ limits.conditionErrors = .fail ∨
    step.Passes limits vars ∧ interpolateFields vars step.args = .error e

theorem Skips.not_passes {step : Step} {limits : Limits} {vars : Variables}
    (h : step.Skips limits vars) : ¬ step.Passes limits vars := by
  rcases h with hfails | ⟨⟨e, hbroken⟩, policy⟩
  · simp [Passes, hfails]
  · simp [Passes, hbroken, policy]

theorem Skips.not_breaks {step : Step} {limits : Limits} {vars : Variables} {e : ExprError}
    (h : step.Skips limits vars) : ¬ step.Breaks limits vars e := by
  rintro (⟨hbroken, policy⟩ | ⟨passes, -⟩)
  · simp [Skips, hbroken, policy] at h
  · exact h.not_passes passes

def entry (step : Step) (settings : Settings) (index : Nat) (args : Table Json) (ended : Attempted)
    (outcome : StepOutcome) (more : List Entry) : Entry :=
  { index, kind := step.kind, attempts := ended.attempts, outcome,
    args := if settings.debug then some args else none, nested := ended.nested ++ more }

end Step

open Event (here)

/--
The events that a part of a run can have, with what it then comes to. A part without a value was
cut short in a pause.
-/
inductive Course (settings : Settings) :
    (part : Part) → List Event → Option part.Result → Prop where
  | actionCut {levels frame a es}
      (steps : Course settings (.steps levels frame 0 a.steps {} .null) es none) :
      Course settings (.action levels frame a) (here (.entered a frame) :: es) none
  | actionFails {levels frame a es e}
      (steps : Course settings (.steps levels frame 0 a.steps {} .null) es (some (.error e))) :
      Course settings (.action levels frame a) (here (.entered a frame) :: es) (some (.error e))
  | actionRefused {levels frame a es progress last e}
      (steps : Course settings (.steps levels frame 0 a.steps {} .null) es
        (some (.ok (progress, last))))
      (refused : a.conclude settings.limits frame progress = .error e) :
      Course settings (.action levels frame a)
        (here (.entered a frame) :: (es ++ [here (.raised e)])) (some (.error e))
  | actionDone {levels frame a es progress last value}
      (steps : Course settings (.steps levels frame 0 a.steps {} .null) es
        (some (.ok (progress, last))))
      (concluded : a.conclude settings.limits frame progress = .ok value) :
      Course settings (.action levels frame a) (here (.entered a frame) :: es) (some (.ok value))
  | noSteps {levels frame index progress last} :
      Course settings (.steps levels frame index [] progress last) [] (some (.ok (progress, last)))
  | stepCut {levels frame index step rest progress last es}
      (head : Course settings (.step levels frame index step progress) es none) :
      Course settings (.steps levels frame index (step :: rest) progress last) es none
  | stepFails {levels frame index step rest progress last es e}
      (head : Course settings (.step levels frame index step progress) es (some (.error e))) :
      Course settings (.steps levels frame index (step :: rest) progress last) es (some (.error e))
  | stepDone {levels frame index step rest progress last es after value fs r}
      (head : Course settings (.step levels frame index step progress) es
        (some (.ok (after, value))))
      (tail : Course settings (.steps levels frame (index + 1) rest after (value.getD last)) fs r) :
      Course settings (.steps levels frame index (step :: rest) progress last) (es ++ fs) r
  | halted {levels frame index step progress e} {cause : Interrupt}
      (raised : e = frame.halted cause index) :
      Course settings (.step levels frame index step progress) [here (.raised e)] (some (.error e))
  | overLimit {levels frame index step progress e}
      (full : settings.limits.maxSteps ≤ progress.started)
      (raised : e = frame.error (.maxStepsExceeded settings.limits.maxSteps) (some index)) :
      Course settings (.step levels frame index step progress) [here (.raised e)] (some (.error e))
  | skipped {levels frame index step progress}
      (room : progress.started < settings.limits.maxSteps)
      (skips : step.Skips settings.limits (frame.vars progress.begin)) :
      Course settings (.step levels frame index step progress)
        [here (.begun index step progress), here (.recorded (step.unattempted index .skipped))]
        (some (.ok (progress.begin, none)))
  | broken {levels frame index step progress fault e}
      (room : progress.started < settings.limits.maxSteps)
      (breaks : step.Breaks settings.limits (frame.vars progress.begin) fault)
      (raised : e = frame.error (.expression fault) (some index)) :
      Course settings (.step levels frame index step progress)
        [here (.begun index step progress), here (.raised e),
          here (.recorded (step.unattempted index (.failed e)))]
        (some (.error e))
  | attemptsCut {levels frame index step progress args es}
      (room : progress.started < settings.limits.maxSteps)
      (runs : step.Runs settings.limits (frame.vars progress.begin) args)
      (tries : Course settings (.attempts levels frame index step args
        ((Backoff.ofStep step settings.limits.maxRetryDelay).maxAttempts - 1) 1) es none) :
      Course settings (.step levels frame index step progress)
        (here (.begun index step progress) :: here (.dispatched index step.kind) :: es) none
  | attempted {levels frame index step progress args es ended fs r}
      (room : progress.started < settings.limits.maxSteps)
      (runs : step.Runs settings.limits (frame.vars progress.begin) args)
      (tries : Course settings (.attempts levels frame index step args
        ((Backoff.ofStep step settings.limits.maxRetryDelay).maxAttempts - 1) 1) es (some ended))
      (ending : Course settings (.ending levels frame index step args progress.begin ended) fs r) :
      Course settings (.step levels frame index step progress)
        (here (.begun index step progress) :: here (.dispatched index step.kind) :: (es ++ fs)) r
  | succeeded {levels frame index step args progress ended value}
      (result : ended.result = .ok value) :
      Course settings (.ending levels frame index step args progress ended)
        [here (.recorded (step.entry settings index args ended (.succeeded value) []))]
        (some (.ok (progress.recordAs step.output value, some value)))
  | aborted {levels frame index step args progress ended e}
      (result : ended.result = .error e) (final : e.isFatal ∨ step.onError = .abort) :
      Course settings (.ending levels frame index step args progress ended)
        [here (.recorded (step.entry settings index args ended (.failed e) []))]
        (some (.error (e.failStep frame.action index)))
  | ignored {levels frame index step args progress ended e}
      (result : ended.result = .error e) (mild : ¬ e.isFatal) (policy : step.onError = .ignore) :
      Course settings (.ending levels frame index step args progress ended)
        [here (.recorded (step.entry settings index args ended (.failed e) []))]
        (some (.ok (progress, none)))
  | rescueCut {levels frame index step args progress ended e es}
      (result : ended.result = .error e) (mild : ¬ e.isFatal) (policy : step.onError = .fallback)
      (rescue : Course settings (.steps levels frame 0 step.fallback progress .null) es none) :
      Course settings (.ending levels frame index step args progress ended)
        (es.map (Event.inside (.fallback index))) none
  | rescued {levels frame index step args progress ended e es after value}
      (result : ended.result = .error e) (mild : ¬ e.isFatal) (policy : step.onError = .fallback)
      (rescue : Course settings (.steps levels frame 0 step.fallback progress .null) es
        (some (.ok (after, value)))) :
      Course settings (.ending levels frame index step args progress ended)
        (es.map (Event.inside (.fallback index)) ++
          [here (.recorded (step.entry settings index args ended (.rescued value e)
            (entriesOf es)))])
        (some (.ok (after.recordAs step.output value, some value)))
  | unrescued {levels frame index step args progress ended e es fault}
      (result : ended.result = .error e) (mild : ¬ e.isFatal) (policy : step.onError = .fallback)
      (rescue : Course settings (.steps levels frame 0 step.fallback progress .null) es
        (some (.error fault))) :
      Course settings (.ending levels frame index step args progress ended)
        (es.map (Event.inside (.fallback index)) ++
          [here (.recorded (step.entry settings index args ended (.failed fault) (entriesOf es)))])
        (some (.error (fault.failStep frame.action index)))
  | attemptCut {levels frame index step args left count es}
      (once : Course settings (.bounded levels frame index step args) es none) :
      Course settings (.attempts levels frame index step args left count)
        (here (.attempted index count) :: es.map (Event.inside (.attempt index count))) none
  | attemptLast {levels frame index step args left count es result}
      (once : Course settings (.bounded levels frame index step args) es (some result))
      (last : ∀ e, result = .error e → e.isFatal ∨ left = 0) :
      Course settings (.attempts levels frame index step args left count)
        (here (.attempted index count) :: es.map (Event.inside (.attempt index count)))
        (some ⟨result, count, entriesOf es⟩)
  | pauseCut {levels frame index step args left count es e}
      (once : Course settings (.bounded levels frame index step args) es (some (.error e)))
      (mild : ¬ e.isFatal) :
      Course settings (.attempts levels frame index step args (left + 1) count)
        (here (.attempted index count) :: es.map (Event.inside (.attempt index count))) none
  | pauseHalted {levels frame index step args left count es e halt} {cause : Interrupt}
      (once : Course settings (.bounded levels frame index step args) es (some (.error e)))
      (mild : ¬ e.isFatal) (raised : halt = frame.halted cause index) :
      Course settings (.attempts levels frame index step args (left + 1) count)
        (here (.attempted index count) ::
          (es.map (Event.inside (.attempt index count)) ++ [here (.raised halt)]))
        (some ⟨.error halt, count, entriesOf es⟩)
  | again {levels frame index step args left count es e fs r}
      (once : Course settings (.bounded levels frame index step args) es (some (.error e)))
      (mild : ¬ e.isFatal)
      (others : Course settings (.attempts levels frame index step args left (count + 1)) fs r) :
      Course settings (.attempts levels frame index step args (left + 1) count)
        (here (.attempted index count) ::
          (es.map (Event.inside (.attempt index count)) ++ fs)) r
  | inTime {levels frame index step args es r}
      (work : Course settings (.dispatch levels frame index step args) es r) :
      Course settings (.bounded levels frame index step args) es r
  | timedOut {levels frame index step args es ms e}
      (work : Course settings (.dispatch levels frame index step args) es none)
      (bound : step.bound? settings.limits = some ms)
      (raised : e = frame.error (.timeout .step ms) (some index)) :
      Course settings (.bounded levels frame index step args) (es ++ [here (.raised e)])
        (some (.error e))
  | refused {levels frame index step args fault e}
      (task : Task.ofArgs args step.kind frame.selectors
        (step.timeout.getD settings.limits.stepTimeout) = .error fault)
      (raised : e = frame.error fault.toFault (some index)) :
      Course settings (.dispatch levels frame index step args) [here (.raised e)] (some (.error e))
  | tooDeep {frame index step args name params e}
      (task : Task.ofArgs args step.kind frame.selectors
        (step.timeout.getD settings.limits.stepTimeout) = .ok (.run name params))
      (raised : e = frame.error (.maxDepthExceeded settings.limits.maxDepth) (some index)) :
      Course settings (.dispatch 0 frame index step args) [here (.raised e)] (some (.error e))
  | noTarget {levels frame index step args name params e}
      (task : Task.ofArgs args step.kind frame.selectors
        (step.timeout.getD settings.limits.stepTimeout) = .ok (.run name params))
      (target : frame.target settings.registry index name params = .error e) :
      Course settings (.dispatch (levels + 1) frame index step args) [here (.raised e)]
        (some (.error e))
  | ran {levels frame index step args name params a bound es r}
      (task : Task.ofArgs args step.kind frame.selectors
        (step.timeout.getD settings.limits.stepTimeout) = .ok (.run name params))
      (target : frame.target settings.registry index name params = .ok (a, bound))
      (body : Course settings (.action levels (frame.child settings.registry a bound) a) es r) :
      Course settings (.dispatch (levels + 1) frame index step args) es
        (r.map fun result : Outcome Json => result.mapError (·.failRun frame.action index))
  | onPage {levels frame index step args task} {calls : List Call} {r : Option Json}
      (asked : Task.ofArgs args step.kind frame.selectors
        (step.timeout.getD settings.limits.stepTimeout) = .ok (.page task))
      (few : calls.length ≤ 2) :
      Course settings (.dispatch levels frame index step args) (calls.map Event.sent) (r.map .ok)
  | pageFails {levels frame index step args task fault e} {calls : List Call}
      (asked : Task.ofArgs args step.kind frame.selectors
        (step.timeout.getD settings.limits.stepTimeout) = .ok (.page task))
      (few : calls.length ≤ 2) (raised : e = frame.error (.ofPage fault) (some index)) :
      Course settings (.dispatch levels frame index step args)
        (calls.map Event.sent ++ [here (.raised e)]) (some (.error e))

end PageFlow
