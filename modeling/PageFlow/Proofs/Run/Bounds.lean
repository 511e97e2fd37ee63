import Mathlib.Tactic.Positivity
import Mathlib.Tactic.Ring
import PageFlow.Proofs.Plan
import PageFlow.Proofs.Run.Termination
import PageFlow.Proofs.Run.Trace

namespace PageFlow

open Event (here)

def Turn.isFallback : Turn → Bool
  | attempt .. => false
  | fallback _ => true

/-- Whether a note tells that the action at hand starts a step, of its own or of a fallback list. -/
def Note.starts : Note → Bool
  | ⟨.begun .., place⟩ => place.all Turn.isFallback
  | _ => false

/-- How many steps are started in a place by the action that runs there. -/
def startedIn (place : Place) (es : List Event) : Nat :=
  (notesAt place (notesOf es)).countP Note.starts

def callCount (es : List Event) : Nat :=
  es.countP fun
    | .sent _ => true
    | .noted _ => false

section

variable (es fs : List Event)

@[simp] theorem startedIn_nil : startedIn [] [] = 0 := rfl

@[simp] theorem startedIn_append : startedIn [] (es ++ fs) = startedIn [] es + startedIn [] fs := by
  simp [startedIn]

@[simp] theorem startedIn_here (news : News) :
    startedIn [] (here news :: es) = startedIn [] es + if Note.starts { news } then 1 else 0 := by
  simp [startedIn, notesAt, List.countP_cons]

@[simp] theorem startedIn_sent (calls : List Call) : startedIn [] (calls.map Event.sent) = 0 := by
  simp [startedIn]

@[simp] theorem startedIn_attempt (index count : Nat) :
    startedIn [] (es.map (Event.inside (.attempt index count))) = 0 := by
  rw [startedIn, notesAt, notesOf_inside, List.countP_eq_zero]
  intro n hn
  obtain ⟨n, -, rfl⟩ := List.mem_map.1 hn
  obtain ⟨news, place⟩ := n
  cases news <;> simp [Note.starts, Note.inside, Turn.isFallback]

@[simp] theorem startedIn_fallback (index : Nat) :
    startedIn [] (es.map (Event.inside (.fallback index))) = startedIn [] es := by
  rw [startedIn, notesAt, notesOf_inside, List.countP_map]
  refine congrArg (List.countP · (notesOf es)) (funext fun n => ?_)
  obtain ⟨news, place⟩ := n
  cases news <;> simp [Note.starts, Note.inside, Turn.isFallback]

@[simp] theorem callCount_nil : callCount [] = 0 := rfl

@[simp] theorem callCount_append : callCount (es ++ fs) = callCount es + callCount fs :=
  List.countP_append

@[simp] theorem callCount_here (news : News) : callCount (here news :: es) = callCount es := by
  simp [callCount]

@[simp] theorem callCount_sent (calls : List Call) :
    callCount (calls.map Event.sent) = calls.length := by
  rw [callCount, List.countP_map]
  exact List.countP_eq_length.2 fun _ _ => rfl

@[simp] theorem callCount_inside (turn : Turn) :
    callCount (es.map (Event.inside turn)) = callCount es := by
  rw [callCount, List.countP_map]
  exact congrArg (List.countP · es) (funext fun e => by cases e <;> rfl)

end

/-- The steps that are started after some others stay within a limit, and are counted. -/
structure Spends (limit : Nat) (before : Progress) (es : List Event) (after? : Option Progress) :
    Prop where
  few : before.started + startedIn [] es ≤ max limit before.started
  counted : ∀ after, after? = some after → after.started = before.started + startedIn [] es

def Part.Spends (limit : Nat) : (part : Part) → List Event → Option part.Result → Prop
  | steps _ _ _ _ progress _, es, r | step _ _ _ _ progress, es, r
    | ending _ _ _ _ _ progress _, es, r => PageFlow.Spends limit progress es (after? r)
  | attempts .., es, _ => startedIn [] es = 0
  | action .., es, _ | bounded .., es, _ | dispatch .., es, _ => startedIn [] es ≤ limit

@[simp] theorem Progress.started_recordAs (p : Progress) (name : Option String) (value : Json) :
    (p.recordAs name value).started = p.started := by
  cases name <;> rfl

theorem Spends.le {limit : Nat} {es : List Event} {after? : Option Progress}
    (h : Spends limit {} es after?) : startedIn [] es ≤ limit := by
  simpa using h.few

theorem Spends.of_none {limit : Nat} {before : Progress} {es : List Event}
    {after? : Option Progress} (h : startedIn [] es = 0)
    (ha : ∀ after, after? = some after → after.started = before.started) :
    Spends limit before es after? where
  few := by
    rw [h]
    exact Nat.le_max_right _ _
  counted after hafter := by
    rw [h, ha after hafter]
    rfl

theorem Course.spends {settings : Settings} {part : Part} {es : List Event} {r : Option part.Result}
    (h : Course settings part es r) : part.Spends settings.limits.maxSteps es r := by
  induction h with
  | actionCut steps ih | actionFails steps ih | actionRefused steps refused ih
    | actionDone steps concluded ih =>
    simpa [Part.Spends, Note.starts] using Spends.le ih
  | noSteps => exact .of_none rfl (by simp)
  | stepCut head ih | stepFails head ih => exact ⟨ih.few, by simp⟩
  | stepDone head tail ihHead ihTail =>
    have hafter := ihHead.counted _ rfl
    have hhead := ihHead.few
    have htail := ihTail.few
    refine ⟨?_, fun after ha => ?_⟩
    · rw [startedIn_append]
      omega
    · rw [startedIn_append, ihTail.counted after ha]
      omega
  | halted raised => exact .of_none rfl (by simp)
  | overLimit full raised => exact .of_none rfl (by simp)
  | skipped room skips =>
    refine ⟨?_, ?_⟩
    · simp [Note.starts]
      omega
    · simp [Note.starts, Progress.begin]
  | broken room breaks raised =>
    refine ⟨?_, by simp⟩
    simp [Note.starts]
    omega
  | attemptsCut room runs tries ih =>
    refine ⟨?_, by simp⟩
    have hnone : startedIn [] _ = 0 := ih
    simp [Note.starts, hnone]
    omega
  | @attempted _ _ index step progress _ es _ fs _ room runs tries ending ihTries ihEnding =>
    have hcount : startedIn [] (here (.begun index step progress) ::
        here (.dispatched index step.kind) :: (es ++ fs)) = startedIn [] fs + 1 := by
      have hnone : startedIn [] es = 0 := ihTries
      simp [Note.starts, hnone]
    have hfew := ihEnding.few
    have hbegin : progress.begin.started = progress.started + 1 := rfl
    refine ⟨?_, fun after ha => ?_⟩
    · rw [hcount]
      omega
    · rw [hcount, ihEnding.counted after ha]
      omega
  | succeeded result => exact .of_none rfl (by simp)
  | aborted result final => exact .of_none rfl (by simp)
  | ignored result mild policy => exact .of_none rfl (by simp)
  | rescueCut result mild policy rescue ih => exact ⟨by simpa using ih.few, by simp⟩
  | rescued result mild policy rescue ih =>
    have hafter := ih.counted _ rfl
    exact ⟨by simpa [Note.starts] using ih.few, by simp [Note.starts, hafter]⟩
  | unrescued result mild policy rescue ih => exact ⟨by simpa [Note.starts] using ih.few, by simp⟩
  | attemptCut once ih => simp [Part.Spends, Note.starts]
  | attemptLast once last ih => simp [Part.Spends, Note.starts]
  | pauseCut once mild ih => simp [Part.Spends, Note.starts]
  | pauseHalted once mild raised ih => simp [Part.Spends, Note.starts]
  | again once mild others ihOnce ihOthers =>
    have hnone : startedIn [] _ = 0 := ihOthers
    simp [Part.Spends, Note.starts, hnone]
  | inTime work ih => exact ih
  | timedOut work bound raised ih => simpa [Part.Spends, Note.starts] using ih
  | refused task raised => simp [Part.Spends, Note.starts]
  | tooDeep task raised => simp [Part.Spends, Note.starts]
  | noTarget task target => simp [Part.Spends, Note.starts]
  | ran task target body ih => exact ih
  | onPage asked few => simp [Part.Spends]
  | pageFails asked few raised => simp [Part.Spends, Note.starts]

mutual

/-- The most retries of a step and of the steps of its fallback list. -/
def Step.mostRetries : Step → Nat
  | { retries, fallback, .. } => max retries (mostRetriesOf fallback)

def Step.mostRetriesOf : List Step → Nat
  | [] => 0
  | step :: rest => max step.mostRetries (mostRetriesOf rest)

end

theorem Step.retries_le (step : Step) : step.retries ≤ step.mostRetries := by
  cases step
  exact Nat.le_max_left _ _

theorem Step.fallback_le (step : Step) : mostRetriesOf step.fallback ≤ step.mostRetries := by
  cases step
  exact Nat.le_max_right _ _

def Note.entered? : Note → Option Action
  | ⟨.entered a _, _⟩ => some a
  | _ => none

def enteredIn (es : List Event) : List Action :=
  (notesOf es).filterMap Note.entered?

section

variable (es fs : List Event)

@[simp] theorem enteredIn_append : enteredIn (es ++ fs) = enteredIn es ++ enteredIn fs := by
  simp [enteredIn]

@[simp] theorem enteredIn_here (news : News) :
    enteredIn (here news :: es) = (Note.entered? { news }).toList ++ enteredIn es := by
  cases news <;> rfl

@[simp] theorem enteredIn_inside (turn : Turn) :
    enteredIn (es.map (Event.inside turn)) = enteredIn es := by
  rw [enteredIn, notesOf_inside, List.filterMap_map]
  refine congrArg (List.filterMap · (notesOf es)) (funext fun n => ?_)
  obtain ⟨news, place⟩ := n
  cases news <;> rfl

end

def FewRetries (most : Nat) (es : List Event) : Prop :=
  ∀ a ∈ enteredIn es, Step.mostRetriesOf a.steps ≤ most

section

variable {most : Nat} {es fs : List Event}

@[simp] theorem fewRetries_nil : FewRetries most [] := by
  simp [FewRetries, enteredIn]

@[simp] theorem fewRetries_append :
    FewRetries most (es ++ fs) ↔ FewRetries most es ∧ FewRetries most fs := by
  simp [FewRetries, or_imp, forall_and]

@[simp] theorem fewRetries_here {news : News} : FewRetries most (here news :: es) ↔
    (∀ a, Note.entered? { news } = some a → Step.mostRetriesOf a.steps ≤ most) ∧
      FewRetries most es := by
  simp [FewRetries, or_imp, forall_and]

@[simp] theorem fewRetries_inside {turn : Turn} :
    FewRetries most (es.map (Event.inside turn)) ↔ FewRetries most es := by
  simp [FewRetries]

end

def Part.mostRetries : Part → Nat
  | action _ _ a => Step.mostRetriesOf a.steps
  | steps _ _ _ list _ _ => Step.mostRetriesOf list
  | step _ _ _ s _ | attempts _ _ _ s _ _ _ | ending _ _ _ s _ _ _ | bounded _ _ _ s _
    | dispatch _ _ _ s _ => s.mostRetries

/-- How many calls one attempt makes at most, with so many levels of nesting below it. -/
def callLimit (maxSteps most levels : Nat) : Nat :=
  2 * (maxSteps * (most + 1)) ^ levels

def Part.CallsFew (maxSteps most : Nat) : Part → List Event → Prop
  | action levels _ _, es => callCount es ≤ callLimit maxSteps most (levels + 1)
  | steps levels .., es | step levels .., es | ending levels .., es =>
    callCount es ≤ startedIn [] es * ((most + 1) * callLimit maxSteps most levels)
  | attempts levels _ _ _ _ left _, es =>
    0 < maxSteps → callCount es ≤ (left + 1) * callLimit maxSteps most levels
  | bounded levels .., es | dispatch levels .., es =>
    0 < maxSteps → callCount es ≤ callLimit maxSteps most levels

theorem callLimit_succ (maxSteps most levels : Nat) :
    callLimit maxSteps most (levels + 1) =
      maxSteps * ((most + 1) * callLimit maxSteps most levels) := by
  unfold callLimit
  ring

theorem two_le_callLimit {maxSteps : Nat} (h : 0 < maxSteps) (most levels : Nat) :
    2 ≤ callLimit maxSteps most levels := by
  have hpos : 0 < (maxSteps * (most + 1)) ^ levels := by positivity
  rw [callLimit]
  omega

theorem Step.mostRetries_of_cons {step : Step} {rest : List Step} {most : Nat}
    (h : mostRetriesOf (step :: rest) ≤ most) :
    step.mostRetries ≤ most ∧ mostRetriesOf rest ≤ most :=
  max_le_iff.1 h

theorem Course.action_calls {settings : Settings} {levels : Nat} {frame : Frame} {steps : List Step}
    {es : List Event} {r : Option (Outcome (Progress × Json))} {most : Nat}
    (h : Course settings (.steps levels frame 0 steps {} .null) es r)
    (hcalls :
      (Part.steps levels frame 0 steps {} .null).CallsFew settings.limits.maxSteps most es) :
    callCount es ≤ callLimit settings.limits.maxSteps most (levels + 1) := by
  rw [callLimit_succ]
  exact hcalls.trans (Nat.mul_le_mul_right _ (Spends.le h.spends))

theorem Course.entered_mem {settings : Settings} {levels : Nat} {frame : Frame} {a : Action}
    {es : List Event} {r : Option (Outcome Json)}
    (h : Course settings (.action levels frame a) es r) :
    a ∈ enteredIn es := by
  cases h <;> simp [Note.entered?]

theorem Part.CallsFew.of_attempts {levels : Nat} {frame : Frame} {index : Nat} {step : Step}
    {args : Table Json} {cap maxSteps most : Nat} {es : List Event}
    (h : (attempts levels frame index step args
      ((Backoff.ofStep step cap).maxAttempts - 1) 1).CallsFew maxSteps most es)
    (hpos : 0 < maxSteps) (hstep : step.mostRetries ≤ most) :
    callCount es ≤ (most + 1) * callLimit maxSteps most levels := by
  have hleft : (Backoff.ofStep step cap).maxAttempts - 1 ≤ most :=
    (Backoff.maxAttempts_le step cap).trans (step.retries_le.trans hstep)
  exact (h hpos).trans (Nat.mul_le_mul_right _ (Nat.succ_le_succ hleft))

theorem Course.calls_few {settings : Settings} {part : Part} {es : List Event}
    {r : Option part.Result} (h : Course settings part es r) {most : Nat}
    (hpart : part.mostRetries ≤ most) (hes : FewRetries most es) :
    part.CallsFew settings.limits.maxSteps most es := by
  induction h with
  | actionCut steps ih | actionFails steps ih | actionRefused steps refused ih
    | actionDone steps concluded ih =>
    have hcalls := ih hpart (by simpa [Note.entered?] using (fewRetries_here.1 hes).2)
    simpa [Part.CallsFew] using steps.action_calls hcalls
  | noSteps => simp [Part.CallsFew]
  | stepCut head ih | stepFails head ih =>
    exact ih (Step.mostRetries_of_cons hpart).1 hes
  | stepDone head tail ihHead ihTail =>
    obtain ⟨hstep, hrest⟩ := Step.mostRetries_of_cons hpart
    obtain ⟨hes, hfs⟩ := fewRetries_append.1 hes
    have hhead := ihHead hstep hes
    have htail := ihTail hrest hfs
    simp only [Part.CallsFew] at hhead htail ⊢
    rw [callCount_append, startedIn_append, Nat.add_mul]
    exact Nat.add_le_add hhead htail
  | halted | overLimit | skipped | broken => simp [Part.CallsFew]
  | attemptsCut room runs tries ih =>
    have hcalls := (ih hpart (by simpa [Note.entered?] using hes)).of_attempts
      (Nat.zero_lt_of_lt room) hpart
    have hnone : startedIn [] _ = 0 := tries.spends
    simpa [Part.CallsFew, Note.starts, hnone] using hcalls
  | @attempted _ _ _ _ _ _ es _ fs _ room runs tries ending ihTries ihEnding =>
    obtain ⟨hes, hfs⟩ : FewRetries most es ∧ FewRetries most fs := by
      simpa [Note.entered?] using hes
    have htries := (ihTries hpart hes).of_attempts (Nat.zero_lt_of_lt room) hpart
    have hending := ihEnding hpart hfs
    have hnone : startedIn [] es = 0 := tries.spends
    have hsum := Nat.add_le_add htries hending
    simp only [Part.CallsFew, callCount_here, callCount_append, startedIn_here, startedIn_append,
      hnone, Note.starts]
    refine hsum.trans (Nat.le_of_eq ?_)
    simp
    ring
  | succeeded | aborted | ignored => simp [Part.CallsFew]
  | @rescueCut _ _ _ step _ _ _ _ _ result mild policy rescue ih =>
    simpa [Part.CallsFew] using ih (step.fallback_le.trans hpart) (by simpa using hes)
  | @rescued _ _ _ step _ _ _ _ _ _ _ result mild policy rescue ih =>
    have hcalls := ih (step.fallback_le.trans hpart) (by simpa [Note.entered?] using hes)
    simpa [Part.CallsFew, Note.starts] using hcalls
  | @unrescued _ _ _ step _ _ _ _ _ _ result mild policy rescue ih =>
    have hcalls := ih (step.fallback_le.trans hpart) (by simpa [Note.entered?] using hes)
    simpa [Part.CallsFew, Note.starts] using hcalls
  | attemptCut once ih | attemptLast once last ih | pauseCut once mild ih
    | pauseHalted once mild raised ih =>
    intro hpos
    have hcalls := ih hpart (by simpa [Note.entered?] using hes) hpos
    simpa using hcalls.trans (Nat.le_mul_of_pos_left _ (Nat.succ_pos _))
  | @again _ _ _ _ _ left _ es _ fs _ once mild others ihOnce ihOthers =>
    obtain ⟨hes, hfs⟩ : FewRetries most es ∧ FewRetries most fs := by
      simpa [Note.entered?] using hes
    intro hpos
    have honce := ihOnce hpart hes hpos
    have hothers := ihOthers hpart hfs hpos
    have hsum := Nat.add_le_add honce hothers
    simp only [callCount_here, callCount_append, callCount_inside]
    refine hsum.trans (Nat.le_of_eq ?_)
    ring
  | inTime work ih => exact ih hpart hes
  | timedOut work bound raised ih =>
    intro hpos
    simpa using ih hpart (fewRetries_append.1 hes).1 hpos
  | refused | tooDeep | noTarget => simp [Part.CallsFew]
  | @ran _ _ _ _ _ _ _ a _ _ _ task target body ih =>
    exact fun _ => ih (hes a body.entered_mem) hes
  | onPage asked few =>
    intro hpos
    simpa using few.trans (two_le_callLimit hpos most _)
  | pageFails asked few raised =>
    intro hpos
    simpa using few.trans (two_le_callLimit hpos most _)

theorem Course.entered_own {settings : Settings} {part : Part} {es : List Event}
    {r : Option part.Result} (h : Course settings part es r) {a : Action} {frame : Frame}
    (ha : .entered a frame ∈ newsAt [] es) :
    frame.depth = part.depth ∧ frame.depth ≤ part.deepest := by
  induction h with
  | actionCut steps ih | actionFails steps ih | actionDone steps concluded ih
    | actionRefused steps refused ih =>
    simp only [newsAt_here, newsAt_append, newsAt_nil, List.mem_cons, List.mem_append,
      News.entered.injEq, reduceCtorEq, List.not_mem_nil, or_false] at ha
    rcases ha with ⟨rfl, rfl⟩ | ha
    · exact ⟨rfl, Nat.le_add_right _ _⟩
    · exact ih ha
  | noSteps | halted | overLimit | skipped | broken | succeeded | aborted | ignored | rescueCut
    | rescued | unrescued | attemptCut | attemptLast | pauseCut | pauseHalted | refused | tooDeep
    | noTarget | onPage | pageFails =>
    simp at ha
  | stepCut head ih | stepFails head ih => exact ih ha
  | stepDone head tail ihHead ihTail =>
    rcases List.mem_append.1 (newsAt_append _ _ _ ▸ ha) with ha | ha
    · exact ihHead ha
    · exact ihTail ha
  | attemptsCut room runs tries ih => exact ih (by simpa using ha)
  | attempted room runs tries ending ihTries ihEnding =>
    simp only [newsAt_here, newsAt_append, List.mem_cons, List.mem_append, reduceCtorEq,
      false_or] at ha
    rcases ha with ha | ha
    · exact ihTries ha
    · exact ihEnding ha
  | again once mild others ihOnce ihOthers => exact ihOthers (by simpa using ha)
  | inTime work ih => exact ih ha
  | timedOut work bound raised ih => exact ih (by simpa using ha)
  | ran task target body ih =>
    obtain ⟨hdepth, hdeepest⟩ := ih ha
    refine ⟨hdepth, hdeepest.trans (Nat.le_of_eq ?_)⟩
    simp only [Part.deepest, Frame.child, Frame.ofAction]
    omega

theorem Walks.few_attempts {steps : List Step} {index : Nat} {es : List Event} {fate : Fate}
    (h : Walks steps index es fate) {step : Step} {i : Nat} (hs : (step, i) ∈ startsAt [] es) :
    (attemptsAt i [] es).length ≤ step.retries + 1 := by
  rw [h.starts] at hs
  obtain ⟨j, hj⟩ := List.mem_iff_getElem?.1 hs
  rw [List.getElem?_take, Option.ite_none_right_eq_some, List.getElem?_zipIdx,
    Option.map_eq_some_iff] at hj
  obtain ⟨hlt, s, hstep, heq⟩ := hj
  cases heq
  by_cases hrecorded : j < (entriesAt [] es).length
  · -- the step is recorded, with its attempts
    obtain ⟨s, hs', hi, -, hfew, -⟩ := h.entries j _ (List.getElem?_eq_getElem hrecorded)
    cases hstep.symm.trans hs'
    have haccounts := h.accounts _ (List.getElem_mem hrecorded)
    rw [← hi, haccounts.attempts, List.length_range']
    exact hfew
  · -- the step is at work
    have hcut : fate = .cut := by
      by_contra hover
      rw [if_neg hover] at hlt
      omega
    rw [if_pos hcut] at hlt
    obtain ⟨f, s, hs', hi, hshows⟩ := h.inFlight hcut
    obtain rfl : j = (entriesAt [] es).length := by omega
    cases hstep.symm.trans hs'
    rw [← hi, hshows.attempts, List.length_range']
    exact hshows.few

namespace Course

variable {settings : Settings} {levels : Nat} {frame : Frame} {a : Action} {es : List Event}
  {r : Option (Outcome Json)}

/-- The actions that are entered in a place are as deep as the place. -/
theorem entered_depth (h : Course settings (.action levels frame a) es r) {place : Place}
    {b : Action} {child : Frame} (hb : .entered b child ∈ newsAt place es) :
    child.depth = frame.depth + place.depth ∧ child.depth ≤ frame.depth + levels := by
  rcases h.at_place place with hnone | ⟨inner, fs, r, hc, hat, hnotes⟩
  · have hown : newsAt place es = newsAt [] [] := newsAt_of_notesAt_own hnone
    rw [hown] at hb
    cases hb
  · rw [newsAt_of_notesAt_own hnotes] at hb
    obtain ⟨hdepth, hdeepest⟩ := hc.entered_own hb
    exact ⟨hdepth.trans hat.depth, hdeepest.trans (Nat.le_of_eq hat.deepest)⟩

theorem startedIn_le (h : Course settings (.action levels frame a) es r) (place : Place) :
    startedIn place es ≤ settings.limits.maxSteps := by
  rcases h.at_place place with hnone | ⟨inner, fs, r, hc, hat, hnotes⟩
  · simp [startedIn, hnone]
  have heq : startedIn place es = startedIn [] fs := congrArg (List.countP Note.starts) hnotes
  have hspends := hc.spends
  rw [heq]
  cases hat with
  | root => exact hspends
  | turn outside holds =>
    cases holds with
    | attempt => exact hspends
    | fallback =>
      have hfew := hspends.few
      omega

/-- A step that is started in a place is attempted once there, and again for each of its retries. -/
theorem few_attempts (h : Course settings (.action levels frame a) es r) {place : Place}
    {step : Step} {i : Nat} (hs : (step, i) ∈ startsAt place es) :
    (attemptsAt i place es).length ≤ step.retries + 1 := by
  rcases h.walks place with ⟨hnone, -⟩ | ⟨steps, fs, fate, -, hwalks, hnotes⟩
  · rw [hnone] at hs
    cases hs
  have hown := newsAt_of_notesAt_own hnotes
  have hstarts : startsAt place es = startsAt [] fs := told_congr hown
  have hattempts : attemptsAt i place es = attemptsAt i [] fs := told_congr hown
  rw [hattempts]
  exact hwalks.few_attempts (hstarts ▸ hs)

end Course

def mostRetriesIn (es : List Event) : Nat :=
  (enteredIn es).foldr (fun a most => max (Step.mostRetriesOf a.steps) most) 0

theorem fewRetries_mostRetriesIn (es : List Event) : FewRetries (mostRetriesIn es) es := by
  rw [FewRetries, mostRetriesIn]
  induction enteredIn es with
  | nil => simp
  | cons b rest ih =>
    intro a ha
    rcases List.mem_cons.1 ha with rfl | ha
    · exact Nat.le_max_left _ _
    · exact (ih a ha).trans (Nat.le_max_right _ _)

structure KeepsTo (limits : Limits) (es : List Event) : Prop where
  /-- An action is as deep as the attempts that it is inside of. -/
  depth : ∀ place a frame, .entered a frame ∈ newsAt place es →
    frame.depth = place.depth ∧ frame.depth ≤ limits.maxDepth
  steps : ∀ place, startedIn place es ≤ limits.maxSteps
  attempts : ∀ place step index, (step, index) ∈ startsAt place es →
    (attemptsAt index place es).length ≤ step.retries + 1
  calls : callCount es ≤ callLimit limits.maxSteps (mostRetriesIn es) (limits.maxDepth + 1)

theorem keepsTo_nil (limits : Limits) : KeepsTo limits [] where
  depth := by simp
  steps := by simp [startedIn]
  attempts := by simp
  calls := by simp

theorem Course.keepsTo {settings : Settings} {frame : Frame} {a : Action} {es : List Event}
    {r : Option (Outcome Json)}
    (h : Course settings (.action settings.limits.maxDepth frame a) es r) (hd : frame.depth = 0) :
    KeepsTo settings.limits es where
  depth place b child hb := by
    have hdepth := h.entered_depth hb
    rwa [hd, Nat.zero_add, Nat.zero_add] at hdepth
  steps := h.startedIn_le
  attempts place step index hs := h.few_attempts hs
  calls := by
    have hfew := fewRetries_mostRetriesIn es
    exact h.calls_few (hfew a h.entered_mem) hfew

variable {σ : Type}

theorem history_keepsTo (settings : Settings) (page : Page σ) (state : σ)
    (cancellation : Cancellation) (a : Action) (params env : Json) :
    KeepsTo settings.limits
      (eventsOf (history settings page state cancellation a params env)) := by
  cases execute_goes settings page state cancellation a params env with
  | unbound root events => exact events ▸ keepsTo_nil settings.limits
  | ended root course => exact course.keepsTo (Frame.root_depth root)
  | interrupted root course => exact course.keepsTo (Frame.root_depth root)

theorem length_callsOf (history : List (Nat × Request)) :
    (callsOf history).length = callCount (eventsOf history) := by
  induction history with
  | nil => rfl
  | cons q rest ih =>
    obtain ⟨ms, r⟩ := q
    cases r <;> simp_all [callsOf, eventsOf, callCount, Request.call?, Request.event?]

/--
Runs and plans come to an end within their limits. No run of an action makes more requests than
some number that depends on neither the page nor what the action is given; a run nests no deeper,
starts no more steps in an action and repeats no step more often than it may, and so its calls are
few; and a plan, if there is one, nests no deeper and has no more steps in an action.
-/
theorem execute_bounded (settings : Settings) (a : Action) :
    let limits := settings.limits
    (∃ most, ∀ (σ : Type) (page : Page σ) (state : σ) (cancellation : Cancellation)
      (params env : Json),
        (history settings page state cancellation a params env).length ≤ most) ∧
    (∀ (σ : Type) (page : Page σ) (state : σ) (cancellation : Cancellation) (params env : Json),
      let es := eventsOf (history settings page state cancellation a params env)
      KeepsTo limits es ∧
        (execute settings page state cancellation a params env).1.calls.length ≤
          2 * (limits.maxSteps * (mostRetriesIn es + 1)) ^ (limits.maxDepth + 1)) ∧
    ∀ params env : Json, (∃ e, a.plan settings.registry limits params env = .error e) ∨
      ∃ p, a.plan settings.registry limits params env = .ok p ∧
        p.Fits limits.maxSteps limits.maxDepth 0 := by
  intro limits
  refine ⟨history_ends settings a, fun σ page state cancellation params env => ?_,
    fun params env => ?_⟩
  · have hkeeps := history_keepsTo settings page state cancellation a params env
    rw [execute_calls, length_callsOf]
    exact ⟨hkeeps, hkeeps.calls⟩
  · cases hplan : a.plan settings.registry limits params env with
    | error e => exact .inl ⟨e, rfl⟩
    | ok p => exact .inr ⟨p, rfl, Action.plan_fits hplan⟩

end PageFlow
