import PageFlow.Proofs.Run.Record

namespace PageFlow

open Event (here)

/--
The step with an index in a place, among the steps of an action and of their fallback lists. What
happens inside of an attempt is none of them.
-/
def Step.at? : List Step → Place → Nat → Option Step
  | steps, [], index => steps[index]?
  | steps, .fallback i :: place, index => steps[i]?.bind fun step => at? step.fallback place index
  | _, .attempt .. :: _, _ => none

/-- The value that a note records, and its name. -/
def Note.write? (steps : List Step) (n : Note) : Option (String × Value) := do
  let entry ← n.news.entry?
  let step ← Step.at? steps n.place entry.index
  let name ← step.output
  let value ← entry.outcome.value?
  return (name, .ofJson value)

def writesOf (steps : List Step) (ns : List Note) : List (String × Value) :=
  ns.filterMap (Note.write? steps)

/-- How a step goes on after it has begun, by what its condition and its arguments come to. -/
inductive Step.Answers (step : Step) (limits : Limits) (vars : Variables) (index : Nat) :
    News → Prop
  | skipped (skips : step.Skips limits vars) :
    Answers step limits vars index (.recorded (step.unattempted index .skipped))
  | runs {args : Table Json} (runs : step.Runs limits vars args) :
    Answers step limits vars index (.dispatched index step.kind)
  | broken {fault : ExprError} {e : ActionError} (breaks : step.Breaks limits vars fault) :
    Answers step limits vars index (.raised e)

/-- A step that begins is one of the action's, and sees the scope as it is by then. -/
def Note.Sees (limits : Limits) (frame : Frame) (steps : List Step) (scope : Table Value)
    (n : Note) (rest : List Note) : Prop :=
  ∀ index step progress, n.news = .begun index step progress → n.place.depth = 0 →
    Step.at? steps n.place index = some step ∧ progress.outputs = scope ∧
      ∃ next others, rest = ⟨next, n.place⟩ :: others ∧
        step.Answers limits (frame.vars progress.begin) index next

/-- Every step among the notes of an action sees the scope that the notes before it leave. -/
def Recalls (limits : Limits) (frame : Frame) (steps : List Step) :
    Table Value → List Note → Prop
  | _, [] => True
  | scope, n :: rest => n.Sees limits frame steps scope rest ∧
    Recalls limits frame steps (scope.insertAll (writesOf steps [n])) rest

section

variable {limits : Limits} {frame : Frame} {steps : List Step} {scope : Table Value}
  {ns ms : List Note} {n : Note}

@[simp] theorem writesOf_nil : writesOf steps [] = [] := rfl

@[simp] theorem writesOf_append :
    writesOf steps (ns ++ ms) = writesOf steps ns ++ writesOf steps ms :=
  List.filterMap_append

theorem writesOf_cons : writesOf steps (n :: ns) = writesOf steps [n] ++ writesOf steps ns :=
  List.filterMap_append (l := [n])

@[simp] theorem writesOf_attempt (index count : Nat) :
    writesOf steps (ns.map (Note.inside (.attempt index count))) = [] := by
  rw [writesOf, List.filterMap_eq_nil_iff]
  intro n hn
  obtain ⟨⟨news, place⟩, -, rfl⟩ := List.mem_map.1 hn
  cases news <;> rfl

theorem writesOf_fallback {index : Nat} {step : Step} (hs : steps[index]? = some step)
    (ns : List Note) :
    writesOf steps (ns.map (Note.inside (.fallback index))) = writesOf step.fallback ns := by
  rw [writesOf, writesOf, List.filterMap_map]
  congr 1
  funext m
  simp [Note.write?, Note.inside, Step.at?, hs]

theorem Note.Sees.append (h : n.Sees limits frame steps scope ns) (ms : List Note) :
    n.Sees limits frame steps scope (ns ++ ms) := by
  intro index step progress hnews hdepth
  obtain ⟨hstep, hscope, next, others, rfl, hanswers⟩ := h index step progress hnews hdepth
  exact ⟨hstep, hscope, next, others ++ ms, rfl, hanswers⟩

namespace Recalls

theorem append (h : Recalls limits frame steps scope ns)
    (ht : Recalls limits frame steps (scope.insertAll (writesOf steps ns)) ms) :
    Recalls limits frame steps scope (ns ++ ms) := by
  induction ns generalizing scope with
  | nil => exact ht
  | cons n ns ih =>
    refine ⟨h.1.append ms, ih h.2 ?_⟩
    rw [← Table.insertAll_append, ← writesOf_cons]
    exact ht

/-- Every step sees the scope that the notes before it leave, wherever the notes are split. -/
theorem sees (h : Recalls limits frame steps scope (ns ++ n :: ms)) :
    n.Sees limits frame steps (scope.insertAll (writesOf steps ns)) ms := by
  induction ns generalizing scope with
  | nil => exact h.1
  | cons m ns ih =>
    rw [writesOf_cons, Table.insertAll_append]
    exact ih h.2

theorem attempt (index count : Nat) :
    Recalls limits frame steps scope (ns.map (Note.inside (.attempt index count))) := by
  induction ns generalizing scope with
  | nil => trivial
  | cons n ns ih =>
    refine ⟨?_, ih⟩
    intro i step progress hnews hdepth
    simp [Note.inside, Place.depth] at hdepth

theorem fallback {index : Nat} {step : Step} (hs : steps[index]? = some step)
    (h : Recalls limits frame step.fallback scope ns) :
    Recalls limits frame steps scope (ns.map (Note.inside (.fallback index))) := by
  induction ns generalizing scope with
  | nil => trivial
  | cons n ns ih =>
    constructor
    · intro i s progress hnews hdepth
      have hinner : n.place.depth = 0 := by simpa [Note.inside, Place.depth] using hdepth
      obtain ⟨hstep, hscope, next, others, rfl, hanswers⟩ := h.1 i s progress hnews hinner
      refine ⟨?_, hscope, next, others.map (Note.inside (.fallback index)), rfl, hanswers⟩
      simpa [Note.inside, Step.at?, hs] using hstep
    · have hwrites : writesOf steps [n.inside (.fallback index)] = writesOf step.fallback [n] :=
        writesOf_fallback hs [n]
      rw [hwrites]
      exact ih h.2

theorem here {news : News} (hnews : ∀ index step progress, news ≠ .begun index step progress)
    (h : Recalls limits frame steps (scope.insertAll (writesOf steps [{ news }])) ns) :
    Recalls limits frame steps scope ({ news } :: ns) :=
  ⟨fun index step progress heq => (hnews index step progress heq).elim, h⟩

theorem begun {index : Nat} {step : Step} {progress : Progress} {next : News}
    (hs : steps[index]? = some step)
    (answers : step.Answers limits (frame.vars progress.begin) index next)
    (h : Recalls limits frame steps progress.outputs ({ news := next } :: ns)) :
    Recalls limits frame steps progress.outputs
      ({ news := .begun index step progress } :: { news := next } :: ns) := by
  refine ⟨?_, h⟩
  intro i s p hnews hdepth
  cases hnews
  exact ⟨hs, rfl, next, ns, rfl, answers⟩

end Recalls

@[simp] theorem writesOf_unrecorded {entry : Entry} (h : entry.outcome.value? = none) :
    writesOf steps [{ news := .recorded entry }] = [] := by
  cases hs : steps[entry.index]? with
  | none => simp [writesOf, Note.write?, Step.at?, hs]
  | some step => simp [writesOf, Note.write?, Step.at?, hs, h]

theorem writesOf_recorded {entry : Entry} {step : Step} {value : Json}
    (hs : steps[entry.index]? = some step) (hv : entry.outcome.value? = some value) :
    writesOf steps [{ news := .recorded entry }] =
      (step.output.map fun name => (name, Value.ofJson value)).toList := by
  cases ho : step.output <;> simp [writesOf, Note.write?, Step.at?, hs, ho, hv]

theorem Progress.outputs_recordAs (p : Progress) (name : Option String) (value : Json) :
    (p.recordAs name value).outputs =
      p.outputs.insertAll (name.map fun name => (name, Value.ofJson value)).toList := by
  cases name <;> rfl

/-- Notes by which steps see what was recorded before them, and which account for what is after. -/
structure Keeps (limits : Limits) (frame : Frame) (steps : List Step) (before : Progress)
    (ns : List Note) (after : Option Progress) : Prop where
  recalls : Recalls limits frame steps before.outputs ns
  leaves : ∀ p, after = some p → p.outputs = before.outputs.insertAll (writesOf steps ns)

namespace Keeps

variable {before mid : Progress} {after : Option Progress}

theorem nil : Keeps limits frame steps before [] (some before) := by
  refine ⟨trivial, ?_⟩
  rintro p ⟨⟩
  rfl

theorem append (h : Keeps limits frame steps before ns (some mid))
    (ht : Keeps limits frame steps mid ms after) :
    Keeps limits frame steps before (ns ++ ms) after := by
  have hmid := h.leaves mid rfl
  constructor
  · exact h.recalls.append (hmid ▸ ht.recalls)
  · intro p hp
    rw [writesOf_append, Table.insertAll_append, ← hmid]
    exact ht.leaves p hp

theorem recorded {entry : Entry} {step : Step} {value : Json}
    (hs : steps[entry.index]? = some step) (hv : entry.outcome.value? = some value) :
    Keeps limits frame steps before [{ news := .recorded entry }]
      (some (before.recordAs step.output value)) := by
  refine ⟨.here nofun trivial, ?_⟩
  rintro p ⟨⟩
  rw [writesOf_recorded hs hv, Progress.outputs_recordAs]

theorem unrecorded {entry : Entry} (hv : entry.outcome.value? = none)
    (kept : after = none ∨ after = some before) :
    Keeps limits frame steps before [{ news := .recorded entry }] after := by
  refine ⟨.here nofun trivial, fun p hp => ?_⟩
  rw [writesOf_unrecorded hv]
  rcases kept with rfl | rfl <;> cases hp
  rfl

theorem cut (h : Keeps limits frame steps before ns after) :
    Keeps limits frame steps before ns none :=
  ⟨h.recalls, nofun⟩

theorem fallback {index : Nat} {step : Step} (hs : steps[index]? = some step)
    (h : Keeps limits frame step.fallback before ns after) :
    Keeps limits frame steps before (ns.map (Note.inside (.fallback index))) after := by
  refine ⟨h.recalls.fallback hs, ?_⟩
  rw [writesOf_fallback hs]
  exact h.leaves

theorem attempt (index count : Nat) :
    Keeps limits frame steps before (ns.map (Note.inside (.attempt index count)))
      (some before) := by
  refine ⟨.attempt index count, ?_⟩
  rintro p ⟨⟩
  rw [writesOf_attempt]
  rfl

theorem here {news : News} (hnews : ∀ index step progress, news ≠ .begun index step progress)
    (hnone : news.entry? = none) (h : Keeps limits frame steps before ns after) :
    Keeps limits frame steps before ({ news } :: ns) after := by
  have hwrites : writesOf steps [{ news }] = [] := by
    cases news with
    | recorded entry => cases hnone
    | _ => rfl
  refine ⟨.here hnews (hwrites ▸ h.recalls), ?_⟩
  rw [writesOf_cons, hwrites]
  exact h.leaves

theorem begun {index : Nat} {step : Step} {next : News} (hs : steps[index]? = some step)
    (answers : step.Answers limits (frame.vars before.begin) index next)
    (h : Keeps limits frame steps before.begin ({ news := next } :: ns) after) :
    Keeps limits frame steps before
      ({ news := .begun index step before } :: { news := next } :: ns) after :=
  ⟨.begun hs answers h.recalls, h.leaves⟩

end Keeps

end

/-- What an action comes to, from the scope that its steps leave. -/
structure Action.Yields (a : Action) (limits : Limits) (frame : Frame) (scope : Table Value)
    (value : Json) : Prop where
  checks : ∀ c ∈ a.checks, judge limits (frame.vars { outputs := scope }) c.condition = .holds
  whole : a.returns = none → value = .object (scope.mapValues Value.toJson)
  formed : ∀ form, a.returns = some form → ∃ fields,
    resultFields (frame.vars { outputs := scope }) form = .ok fields ∧ value = .object fields

namespace Action

theorem failedCheck?_eq_none {limits : Limits} {vars : Variables} {checks : List Check}
    (h : failedCheck? limits vars checks = none) :
    ∀ c ∈ checks, judge limits vars c.condition = .holds := by
  induction checks with
  | nil => exact fun c hc => nomatch hc
  | cons c rest ih =>
    rw [failedCheck?] at h
    split at h
    · next holds =>
      intro d hd
      rcases List.mem_cons.1 hd with rfl | hd
      · exact holds
      · exact ih h d hd
    · cases h
    · cases h

theorem yields_of_conclude {a : Action} {limits : Limits} {frame : Frame} {progress : Progress}
    {value : Json} (h : a.conclude limits frame progress = .ok value) :
    a.Yields limits frame progress.outputs value := by
  rw [conclude] at h
  split at h
  · cases h
  next result hresult =>
  split at h
  · cases h
  next hchecks =>
  cases h
  rw [Action.result] at hresult
  refine ⟨failedCheck?_eq_none hchecks, fun hnone => ?_, fun form hform => ?_⟩
  · rw [hnone] at hresult
    cases hresult
    rfl
  · rw [hform] at hresult
    change (resultFields (frame.vars progress) form).map Json.object = _ at hresult
    cases hfields : resultFields (frame.vars progress) form with
    | error e =>
      rw [hfields] at hresult
      cases hresult
    | ok fields =>
      rw [hfields] at hresult
      cases hresult
      exact ⟨fields, hfields, rfl⟩

end Action

/-- What news of an entered action say of the part that they come from. -/
def Part.Enters : Part → Action → Frame → Prop
  | action _ frame a, b, f => b = a ∧ f = frame
  | bounded .., _, _ | dispatch .., _, _ => True
  | steps .., _, _ | step .., _, _ | attempts .., _, _ | ending .., _, _ => False

theorem Course.enters {settings : Settings} {part : Part} {es : List Event}
    {r : Option part.Result} (h : Course settings part es r) {b : Action} {f : Frame}
    (hb : .entered b f ∈ newsAt [] es) : part.Enters b f := by
  induction h with
  | actionCut steps ih | actionFails steps ih | actionDone steps concluded ih
    | actionRefused steps refused ih =>
    simp only [newsAt_here, newsAt_append, newsAt_nil, List.mem_cons, List.mem_append,
      News.entered.injEq, reduceCtorEq, List.not_mem_nil, or_false] at hb
    exact hb.resolve_right ih
  | noSteps | halted | overLimit | skipped | broken | succeeded | aborted | ignored | rescueCut
    | rescued | unrescued | attemptCut | attemptLast | pauseCut | pauseHalted =>
    simp at hb
  | stepCut head ih | stepFails head ih => exact ih hb
  | stepDone head tail ihHead ihTail =>
    rw [newsAt_append] at hb
    exact (List.mem_append.1 hb).elim ihHead ihTail
  | attemptsCut room runs tries ih => exact ih (by simpa using hb)
  | attempted room runs tries ending ihTries ihEnding =>
    rcases (by simpa using hb : _ ∨ _) with hb | hb
    · exact ihTries hb
    · exact ihEnding hb
  | again once mild others ihOnce ihOthers => exact ihOthers (by simpa using hb)
  | inTime | timedOut | refused | tooDeep | noTarget | ran | onPage | pageFails => trivial

structure Action.Recounts (b : Action) (limits : Limits) (f : Frame) (ns : List Note)
    (r : Option (Outcome Json)) : Prop where
  recalls : Recalls limits f b.steps [] ns
  yields : ∀ value, r = some (.ok value) →
    b.Yields limits f (.ofList (writesOf b.steps ns)) value

def Part.Recalls (settings : Settings) : (part : Part) → List Event → Option part.Result → Prop
  | action .., es, r | bounded .., es, r | dispatch .., es, r => ∀ b f,
    .entered b f ∈ newsAt [] es → b.Recounts settings.limits f (notesOf es) r
  | steps _ frame index list progress _, es, r => ∀ full : List Step, full.drop index = list →
    Keeps settings.limits frame full progress (notesOf es) (after? r)
  | step _ frame index s progress, es, r | ending _ frame index s _ progress _, es, r =>
    ∀ full : List Step, full[index]? = some s →
      Keeps settings.limits frame full progress (notesOf es) (after? r)
  | attempts .., es, _ => ∀ frame full progress,
    Keeps settings.limits frame full progress (notesOf es) (some progress)

theorem Course.recalls {settings : Settings} {part : Part} {es : List Event}
    {r : Option part.Result} (h : Course settings part es r) : part.Recalls settings es r := by
  induction h with
  | actionCut steps ih =>
    intro b f hb
    obtain ⟨rfl, rfl⟩ := (Course.actionCut steps).enters hb
    exact ⟨.here nofun (ih b.steps rfl).recalls, nofun⟩
  | actionFails steps ih =>
    intro b f hb
    obtain ⟨rfl, rfl⟩ := (Course.actionFails steps).enters hb
    exact ⟨.here nofun (ih b.steps rfl).recalls, nofun⟩
  | actionRefused steps refused ih =>
    intro b f hb
    obtain ⟨rfl, rfl⟩ := (Course.actionRefused steps refused).enters hb
    rw [notesOf_here, notesOf_append]
    exact ⟨.here nofun ((ih b.steps rfl).recalls.append (.here nofun trivial)), nofun⟩
  | actionDone steps concluded ih =>
    intro b f hb
    obtain ⟨rfl, rfl⟩ := (Course.actionDone steps concluded).enters hb
    have hkeeps := ih b.steps rfl
    refine ⟨.here nofun hkeeps.recalls, ?_⟩
    rintro value ⟨⟩
    -- The action concludes from what its steps leave, and that is what its notes record.
    have hyields := Action.yields_of_conclude concluded
    rw [hkeeps.leaves _ rfl] at hyields
    exact hyields
  | noSteps =>
    intro full hdrop
    exact .nil
  | stepCut head ih | stepFails head ih =>
    intro full hdrop
    have hkeeps := ih full (of_drop_eq_cons hdrop).1
    exact ⟨hkeeps.recalls, nofun⟩
  | stepDone head tail ihHead ihTail =>
    intro full hdrop
    obtain ⟨hs, hrest⟩ := of_drop_eq_cons hdrop
    rw [notesOf_append]
    exact (ihHead full hs).append (ihTail full hrest)
  | halted | overLimit =>
    intro full hs
    exact ⟨.here nofun trivial, nofun⟩
  | skipped room skips =>
    intro full hs
    exact .begun hs (.skipped skips) (.unrecorded rfl (.inr rfl))
  | broken room breaks raised =>
    intro full hs
    exact .begun hs (.broken breaks) (.here nofun rfl (.unrecorded rfl (.inl rfl)))
  | attemptsCut room runs tries ih =>
    intro full hs
    exact .begun hs (.runs runs) (.here nofun rfl (ih _ full _).cut)
  | attempted room runs tries ending ihTries ihEnding =>
    intro full hs
    -- The attempts leave the scope as it was, in whichever action they are seen from.
    rw [notesOf_here, notesOf_here, notesOf_append]
    have hboth := (ihTries _ full _).append (ihEnding full hs)
    exact .begun hs (.runs runs) (.here nofun rfl hboth)
  | succeeded result =>
    intro full hs
    exact .recorded hs rfl
  | aborted result final =>
    intro full hs
    exact .unrecorded rfl (.inl rfl)
  | ignored result mild policy =>
    intro full hs
    exact .unrecorded rfl (.inr rfl)
  | rescueCut result mild policy rescue ih =>
    intro full hs
    rw [notesOf_inside]
    exact (ih _ rfl).fallback hs
  | rescued result mild policy rescue ih =>
    intro full hs
    rw [notesOf_append, notesOf_inside]
    exact ((ih _ rfl).fallback hs).append (.recorded hs rfl)
  | unrescued result mild policy rescue ih =>
    intro full hs
    rw [notesOf_append, notesOf_inside]
    exact ⟨((ih _ rfl).fallback hs).recalls.append (.here nofun trivial), nofun⟩
  | attemptCut once ih | attemptLast once last ih | pauseCut once mild ih =>
    intro frame full progress
    rw [notesOf_here, notesOf_inside]
    exact .here nofun rfl (.attempt _ _)
  | pauseHalted once mild halted ih =>
    intro frame full progress
    rw [notesOf_here, notesOf_append, notesOf_inside]
    exact .here nofun rfl ((Keeps.attempt _ _).append (.here nofun rfl .nil))
  | again once mild others ihOnce ihOthers =>
    intro frame full progress
    rw [notesOf_here, notesOf_append, notesOf_inside]
    exact .here nofun rfl ((Keeps.attempt _ _).append (ihOthers frame full progress))
  | inTime work ih => exact ih
  | timedOut work bound raised ih =>
    intro b f hb
    obtain ⟨hrecalls, -⟩ := ih b f (by simpa using hb)
    rw [notesOf_append]
    exact ⟨hrecalls.append (.here nofun trivial), nofun⟩
  | refused task raised | tooDeep task raised | noTarget task target =>
    intro b f hb
    simp at hb
  | @ran _ _ _ _ _ _ _ _ _ _ r task target body ih =>
    intro b f hb
    obtain ⟨hrecalls, hyields⟩ := ih b f hb
    refine ⟨hrecalls, fun value hr => hyields value ?_⟩
    obtain _ | _ | _ := r <;> cases hr
    rfl
  | onPage asked few =>
    intro b f hb
    simp at hb
  | pageFails asked few raised =>
    intro b f hb
    simp at hb

end PageFlow
