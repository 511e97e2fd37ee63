import PageFlow.Proofs.Run.Report

namespace PageFlow

open Event (here)

/-- Faults that end the whole run, wherever in it they are raised. -/
inductive ActionFault.AlwaysFatal : ActionFault → Prop
  | actionNotFound (name : String) : AlwaysFatal (.actionNotFound name)
  | maxDepthExceeded (limit : Nat) : AlwaysFatal (.maxDepthExceeded limit)
  | maxStepsExceeded (limit : Nat) : AlwaysFatal (.maxStepsExceeded limit)
  | cancelled : AlwaysFatal .cancelled
  | actionTimeout (ms : Nat) : AlwaysFatal (.timeout .action ms)

theorem ActionFault.AlwaysFatal.escapes {fault : ActionFault} (h : fault.AlwaysFatal) :
    fault.escapes := by
  cases h <;> rfl

namespace ActionError

/-- A failure that ends the whole run; it has no layers around it. -/
inductive EndsRun : ActionError → Prop
  | raised {fault : ActionFault} (h : fault.AlwaysFatal) (action : String) (step : Option Nat) :
    EndsRun (raised fault action step)

theorem EndsRun.isFatal {e : ActionError} (h : e.EndsRun) : e.isFatal := by
  obtain ⟨h, action, step⟩ := h
  cases h <;> rfl

theorem EndsRun.failStep {e : ActionError} (h : e.EndsRun) (action : String) (step : Nat) :
    e.failStep action step = e := by
  unfold ActionError.failStep
  exact if_pos h.isFatal

theorem EndsRun.failRun {e : ActionError} (h : e.EndsRun) (action : String) (step : Nat) :
    e.failRun action step = e := by
  obtain ⟨h, -, -⟩ := h
  cases h <;> rfl

/-- A failure that ends the run was that failure before it passed a step or a `run` step. -/
theorem EndsRun.of_failStep {e : ActionError} {action : String} {step : Nat}
    (h : (e.failStep action step).EndsRun) : e.EndsRun := by
  unfold ActionError.failStep at h
  split at h
  · exact h
  · split at h
    · split at h <;> cases h
    · cases h

theorem EndsRun.of_failRun {e : ActionError} {action : String} {step : Nat}
    (h : (e.failRun action step).EndsRun) : e.EndsRun := by
  rw [ActionError.failRun] at h
  split at h
  · exact h
  · cases h

end ActionError

theorem Action.failedCheck?_fatal {limits : Limits} {vars : Variables} {fault : ActionFault} :
    ∀ {checks : List Check}, failedCheck? limits vars checks = some fault →
      fault.severity = .fatal ∧ ¬ fault.escapes
  | c :: rest, h => by
    rw [failedCheck?] at h
    split at h
    · exact failedCheck?_fatal h
    · cases h
      exact ⟨rfl, Bool.false_ne_true⟩
    · cases h
      exact ⟨rfl, Bool.false_ne_true⟩

/-- What an action fails with after its steps is fatal for it, and for no action around it. -/
theorem Action.conclude_error {a : Action} {limits : Limits} {frame : Frame} {progress : Progress}
    {e : ActionError} (h : a.conclude limits frame progress = .error e) :
    ∃ fault, e = frame.error fault none ∧ fault.severity = .fatal ∧ ¬ fault.escapes := by
  rw [conclude] at h
  split at h
  · cases h
    exact ⟨_, rfl, rfl, Bool.false_ne_true⟩
  split at h
  · next fault hfault =>
    cases h
    exact ⟨fault, rfl, failedCheck?_fatal hfault⟩
  · cases h

namespace Event

def Raises (e : ActionError) (x : Event) : Prop :=
  ∃ place, x = .noted ⟨.raised e, place⟩

def IsRecord (x : Event) : Prop :=
  ∃ entry place, x = .noted ⟨.recorded entry, place⟩

theorem raises_here (e : ActionError) : (here (.raised e)).Raises e :=
  ⟨[], rfl⟩

theorem raises_here_iff {e e' : ActionError} : (here (.raised e)).Raises e' ↔ e = e' := by
  constructor
  · rintro ⟨place, h⟩
    cases h
    rfl
  · rintro rfl
    exact raises_here e

theorem raises_inside {turn : Turn} {e : ActionError} {x : Event} :
    (x.inside turn).Raises e ↔ x.Raises e := by
  constructor
  · rintro ⟨place, h⟩
    cases x with
    | sent c => cases h
    | noted n =>
      obtain ⟨news, inner⟩ := n
      cases h
      exact ⟨inner, rfl⟩
  · rintro ⟨place, rfl⟩
    exact ⟨turn :: place, rfl⟩

theorem not_isRecord_raised (e : ActionError) (place : Place) :
    ¬ IsRecord (.noted ⟨.raised e, place⟩) := by
  rintro ⟨entry, inner, h⟩
  cases h

theorem IsRecord.inside {x : Event} (h : x.IsRecord) (turn : Turn) : (x.inside turn).IsRecord := by
  obtain ⟨entry, place, rfl⟩ := h
  exact ⟨entry, turn :: place, rfl⟩

end Event

/-- No failure that ends the run is raised. -/
def Calm (es : List Event) : Prop :=
  ∀ x ∈ es, ∀ e : ActionError, e.EndsRun → ¬ x.Raises e

theorem calm_nil : Calm [] := by
  simp [Calm]

theorem calm_calls (calls : List Call) : Calm (calls.map Event.sent) := by
  rintro x hx e - ⟨place, rfl⟩
  simp at hx

/--
After a failure that ends the run is raised there are only records, and it is what the events come
to: `fails` tells with which failure they end.
-/
structure Ends (es : List Event) (fails : ActionError → Prop) : Prop where
  outcome : ∀ x ∈ es, ∀ e : ActionError, e.EndsRun → x.Raises e → fails e
  quiet : es.Pairwise fun x y => (∃ e : ActionError, e.EndsRun ∧ x.Raises e) → y.IsRecord

namespace Ends

variable {es fs : List Event} {fails fails' : ActionError → Prop}

theorem of_calm (h : Calm es) : Ends es fails where
  outcome x hx e he hr := absurd hr (h x hx e he)
  quiet := List.pairwise_of_forall_mem_list fun x hx _ _ ⟨e, he, hr⟩ => absurd hr (h x hx e he)

theorem calm (h : Ends es fails) (hf : ∀ e : ActionError, e.EndsRun → ¬ fails e) : Calm es :=
  fun x hx e he hr => hf e he (h.outcome x hx e he hr)

theorem mono (h : Ends es fails) (hf : ∀ e : ActionError, e.EndsRun → fails e → fails' e) :
    Ends es fails' where
  outcome x hx e he hr := hf e he (h.outcome x hx e he hr)
  quiet := h.quiet

theorem append (he : Calm es) (hf : Ends fs fails) : Ends (es ++ fs) fails where
  outcome x hx e hr hx' := by
    rcases List.mem_append.1 hx with hx | hx
    · exact absurd hx' (he x hx e hr)
    · exact hf.outcome x hx e hr hx'
  quiet := by
    have hcalm : Ends es fails := of_calm he
    exact List.pairwise_append.2
      ⟨hcalm.quiet, hf.quiet, fun x hx _ _ ⟨e, hr, hx'⟩ => absurd hx' (he x hx e hr)⟩

theorem append_records (h : Ends es fails) (hf : ∀ y ∈ fs, y.IsRecord) :
    Ends (es ++ fs) fails where
  outcome x hx e he hr := by
    rcases List.mem_append.1 hx with hx | hx
    · exact h.outcome x hx e he hr
    · obtain ⟨entry, place, rfl⟩ := hf x hx
      obtain ⟨_, hr⟩ := hr
      cases hr
  quiet := List.pairwise_append.2 ⟨h.quiet,
    List.pairwise_of_forall_mem_list fun x _ y hy _ => hf y hy, fun x _ y hy _ => hf y hy⟩

theorem inside (h : Ends es fails) (turn : Turn) : Ends (es.map (Event.inside turn)) fails where
  outcome x hx e he hr := by
    obtain ⟨y, hy, rfl⟩ := List.mem_map.1 hx
    exact h.outcome y hy e he (Event.raises_inside.1 hr)
  quiet := List.pairwise_map.2 <| h.quiet.imp fun hq ⟨e, he, hr⟩ =>
    (hq ⟨e, he, Event.raises_inside.1 hr⟩).inside turn

theorem raise {e : ActionError} (h : fails e) : Ends [here (.raised e)] fails where
  outcome x hx e' _ hr := by
    rw [List.mem_singleton.1 hx, Event.raises_here_iff] at hr
    exact hr ▸ h
  quiet := List.pairwise_singleton _ _

theorem raise_record {e : ActionError} (h : fails e) (entry : Entry) :
    Ends [here (.raised e), here (.recorded entry)] fails :=
  (raise h).append_records fun _ hx => ⟨entry, [], List.mem_singleton.1 hx⟩

theorem news {news : News} (hn : ∀ e, news ≠ .raised e) (h : Ends es fails) :
    Ends (here news :: es) fails := by
  have hcalm : Calm [here news] := by
    rintro x hx e - ⟨place, rfl⟩
    cases List.mem_singleton.1 hx
    exact hn e rfl
  exact append hcalm h

end Ends

def Part.FailsWith : (part : Part) → Option part.Result → ActionError → Prop
  | .action .., r, e | .bounded .., r, e | .dispatch .., r, e => r = some (.error e)
  | .steps .., r, e => r = some (.error e)
  | .step .., r, e | .ending .., r, e => r = some (.error e)
  | .attempts .., r, e => ∃ ended : Attempted, r = some ended ∧ ended.result = .error e

theorem Course.ending_of_endsRun {settings : Settings} {levels : Nat} {frame : Frame} {index : Nat}
    {step : Step} {args : Table Json} {progress : Progress} {ended : Attempted} {e : ActionError}
    {es : List Event} {r : Option (Outcome (Progress × Option Json))} (he : e.EndsRun)
    (hended : ended.result = .error e)
    (h : Course settings (.ending levels frame index step args progress ended) es r) :
    (∀ x ∈ es, x.IsRecord) ∧ r = some (.error e) := by
  cases h with
  | succeeded result => simp [hended] at result
  | aborted result final =>
    cases hended.symm.trans result
    rw [he.failStep]
    exact ⟨fun x hx => ⟨_, [], List.mem_singleton.1 hx⟩, rfl⟩
  | ignored result mild | rescueCut result mild | rescued result mild | unrescued result mild =>
    cases hended.symm.trans result
    exact absurd he.isFatal mild

theorem Course.ends {settings : Settings} {part : Part} {es : List Event}
    {r : Option part.Result} (h : Course settings part es r) : Ends es (part.FailsWith r) := by
  induction h with
  | actionCut steps ih => exact .news (by simp) (ih.mono fun e _ h => by cases h)
  | actionFails steps ih => exact .news (by simp) (ih.mono fun e _ h => by cases h; rfl)
  | actionRefused steps refused ih =>
    exact .news (by simp) (.append (ih.calm fun e _ h => by cases h) (.raise rfl))
  | actionDone steps concluded ih =>
    exact .news (by simp) (.of_calm (ih.calm fun e _ h => by cases h))
  | noSteps => exact .of_calm calm_nil
  | stepCut head ih => exact ih.mono fun e _ h => by cases h
  | stepFails head ih => exact ih.mono fun e _ h => by cases h; rfl
  | stepDone head tail ihHead ihTail => exact .append (ihHead.calm fun e _ h => by cases h) ihTail
  | halted halt => exact .raise rfl
  | overLimit full raised => exact .raise rfl
  | skipped room skips => exact .news (by simp) (.news (by simp) (.of_calm calm_nil))
  | broken room breaks raised =>
    refine .news (by simp) (.raise_record ?_ _)
    rfl
  | attemptsCut room runs tries ih =>
    exact .news (by simp) (.news (by simp) (ih.mono fun e _ ⟨_, h, _⟩ => by cases h))
  | @attempted levels frame index step progress args es ended fs r room runs tries ending ihTries
      ihEnding =>
    refine .news (by simp) (.news (by simp) ?_)
    by_cases hf : ∃ e : ActionError, e.EndsRun ∧ ended.result = .error e
    · obtain ⟨e, he, hended⟩ := hf
      obtain ⟨hrec, rfl⟩ := ending.ending_of_endsRun he hended
      refine (ihTries.mono ?_).append_records hrec
      rintro e' - ⟨_, ⟨⟩, h⟩
      cases hended.symm.trans h
      rfl
    · refine .append (ihTries.calm ?_) ihEnding
      rintro e he ⟨_, ⟨⟩, h⟩
      exact hf ⟨e, he, h⟩
  | succeeded result => exact .news (by simp) (.of_calm calm_nil)
  | aborted result final => exact .news (by simp) (.of_calm calm_nil)
  | ignored result mild policy => exact .news (by simp) (.of_calm calm_nil)
  | rescueCut result mild policy rescue ih => exact (ih.mono fun e _ h => by cases h).inside _
  | rescued result mild policy rescue ih =>
    exact .append ((ih.inside _).calm fun e _ h => by cases h)
      (.news (by simp) (.of_calm calm_nil))
  | unrescued result mild policy rescue ih =>
    refine ((ih.mono fun e he h => ?_).inside _).append_records fun x hx =>
      ⟨_, [], List.mem_singleton.1 hx⟩
    cases h
    exact congrArg (some ∘ Except.error) (he.failStep _ _)
  | attemptCut once ih => exact .news (by simp) ((ih.mono fun e _ h => by cases h).inside _)
  | attemptLast once last ih =>
    refine .news (by simp) ((ih.mono fun e _ h => ?_).inside _)
    cases h
    exact ⟨_, rfl, rfl⟩
  | pauseCut once mild ih =>
    refine .news (by simp) (.of_calm ((ih.inside _).calm fun e he h => ?_))
    cases h
    exact mild he.isFatal
  | pauseHalted once mild halted ih =>
    refine .news (by simp) (.append ((ih.inside _).calm fun e he h => ?_) (.raise ⟨_, rfl, rfl⟩))
    cases h
    exact mild he.isFatal
  | again once mild others ihOnce ihOthers =>
    refine .news (by simp) (.append ((ihOnce.inside _).calm fun e he h => ?_) ihOthers)
    cases h
    exact mild he.isFatal
  | inTime work ih => exact ih
  | timedOut work bound raised ih => exact .append (ih.calm fun e _ h => by cases h) (.raise rfl)
  | refused task raised => exact .raise rfl
  | tooDeep task raised => exact .raise rfl
  | noTarget task target => exact .raise rfl
  | ran task target body ih =>
    apply ih.mono
    intro e he h
    cases h
    exact congrArg (some ∘ Except.error) (he.failRun _ _)
  | onPage asked few => exact .of_calm (calm_calls _)
  | pageFails asked few raised => exact .append (calm_calls _) (.raise rfl)

def RaisedIn (e : ActionError) (es : List Event) : Prop :=
  ∃ x ∈ es, x.Raises e

namespace RaisedIn

variable {e : ActionError} {es fs : List Event}

theorem left (h : RaisedIn e es) : RaisedIn e (es ++ fs) := by
  obtain ⟨x, hx, hr⟩ := h
  exact ⟨x, List.mem_append_left fs hx, hr⟩

theorem right (h : RaisedIn e fs) : RaisedIn e (es ++ fs) := by
  obtain ⟨x, hx, hr⟩ := h
  exact ⟨x, List.mem_append_right es hx, hr⟩

theorem cons {x : Event} (h : RaisedIn e es) : RaisedIn e (x :: es) := by
  obtain ⟨y, hy, hr⟩ := h
  exact ⟨y, List.mem_cons_of_mem x hy, hr⟩

theorem inside (h : RaisedIn e es) (turn : Turn) : RaisedIn e (es.map (Event.inside turn)) := by
  obtain ⟨x, hx, hr⟩ := h
  exact ⟨x.inside turn, List.mem_map_of_mem hx, Event.raises_inside.2 hr⟩

theorem raise (e : ActionError) : RaisedIn e (here (.raised e) :: es) :=
  ⟨_, List.mem_cons_self, Event.raises_here e⟩

end RaisedIn

def Part.Given : Part → ActionError → Prop
  | .ending _ _ _ _ _ _ ended, e => ended.result = .error e
  | _, _ => False

/-- A failure that ends the run does not come about without being raised. -/
theorem Course.raised {settings : Settings} {part : Part} {es : List Event}
    {r : Option part.Result} (h : Course settings part es r) {e : ActionError} (he : e.EndsRun)
    (hf : part.FailsWith r e) : part.Given e ∨ RaisedIn e es := by
  induction h with
  | actionCut | actionDone | noSteps | stepCut | skipped | succeeded | ignored | rescueCut
    | rescued => cases hf
  | attemptsCut | attemptCut | pauseCut => obtain ⟨_, ⟨⟩, _⟩ := hf
  | actionFails steps ih =>
    cases hf
    exact .inr ((ih rfl).resolve_left fun hg => hg).cons
  | actionRefused steps refused ih =>
    cases hf
    exact .inr (RaisedIn.raise _).right.cons
  | stepFails head ih =>
    cases hf
    exact .inr ((ih rfl).resolve_left fun hg => hg)
  | stepDone head tail ihHead ihTail => exact .inr ((ihTail hf).resolve_left fun hg => hg).right
  | halted | overLimit | refused | tooDeep | noTarget =>
    cases hf
    exact .inr (.raise _)
  | broken room breaks raised =>
    cases hf
    exact .inr (RaisedIn.raise _).cons
  | attempted room runs tries ending ihTries ihEnding =>
    rcases ihEnding hf with hg | hr
    · exact .inr ((ihTries ⟨_, rfl, hg⟩).resolve_left fun hg => hg).left.cons.cons
    · exact .inr hr.right.cons.cons
  | aborted result final =>
    cases hf
    rw [he.of_failStep.failStep]
    exact .inl result
  | unrescued result mild policy rescue ih =>
    cases hf
    have hr := (ih (congrArg (some ∘ Except.error) (he.of_failStep.failStep _ _).symm)).resolve_left
      fun hg => hg
    exact .inr (hr.inside _).left
  | attemptLast once last ih =>
    obtain ⟨_, ⟨⟩, hf⟩ := hf
    exact .inr (((ih (congrArg some hf)).resolve_left fun hg => hg).inside _).cons
  | pauseHalted once mild halted ih =>
    obtain ⟨_, ⟨⟩, hf⟩ := hf
    cases hf
    exact .inr (RaisedIn.raise _).right.cons
  | again once mild others ihOnce ihOthers =>
    exact .inr ((ihOthers hf).resolve_left fun hg => hg).right.cons
  | inTime work ih => exact .inr ((ih hf).resolve_left fun hg => hg)
  | timedOut work bound raised ih =>
    cases hf
    exact .inr (RaisedIn.raise _).right
  | @ran levels frame index step args name params a bound es r task target body ih =>
    match r, hf with
    | some (.error fault), hf =>
      cases hf
      have hr := (ih (congrArg (some ∘ Except.error) (he.of_failRun.failRun _ _).symm)).resolve_left
        fun hg => hg
      exact .inr hr
  | @onPage levels frame index step args task calls r asked few =>
    cases r <;> cases hf
  | pageFails asked few raised =>
    cases hf
    exact .inr (RaisedIn.raise _).right

variable {σ : Type}

/--
A failure that ends the run, once raised at any depth, is the result of the run as it was raised,
and nothing but records of the steps around it comes after. The run ends with no other such
failure, but for its own interruption.
-/
theorem execute_endsRun (settings : Settings) (page : Page σ) (state : σ)
    (cancellation : Cancellation) (a : Action) (params env : Json) :
    let es := eventsOf (history settings page state cancellation a params env)
    let result := (execute settings page state cancellation a params env).1.result
    (∀ x ∈ es, ∀ e : ActionError, e.EndsRun → x.Raises e → result = .error e) ∧
      (es.Pairwise fun x y => (∃ e : ActionError, e.EndsRun ∧ x.Raises e) → y.IsRecord) ∧
      ∀ e : ActionError, e.EndsRun → result = .error e → RaisedIn e es ∨
        ∃ (cause : Interrupt) (step : Option Nat),
          (cause = .cancelled ∨ cause = .deadline settings.limits.actionTimeout) ∧
            e = .raised cause.fault a.fullName step := by
  intro es result
  have hgoes : Goes settings a params env es _ :=
    execute_goes settings page state cancellation a params env
  cases hgoes with
  | unbound root events reported =>
    obtain ⟨message, rfl⟩ := Frame.root_error root
    have hresult : result = _ := congrArg Report.result reported
    refine ⟨by simp [events], by simp [events], fun e he hr => ?_⟩
    cases hresult.symm.trans hr
    obtain ⟨⟨⟩, -, -⟩ := he
  | ended root course hresult trace =>
    have hends := course.ends
    refine ⟨fun x hx e he hr => ?_, hends.quiet, fun e he hr => .inl ?_⟩
    · exact hresult.trans (Option.some.inj (hends.outcome x hx e he hr))
    · exact (course.raised he (congrArg some (hresult.symm.trans hr))).resolve_left fun hg => hg
  | @interrupted frame cause _ _ root course stops ledger hresult trace =>
    have hends := course.ends
    refine ⟨fun x hx e he hr => ?_, hends.quiet, fun e he hr => .inr ?_⟩
    · cases hends.outcome x hx e he hr
    · obtain ⟨step, hstep⟩ :=
        (Ledger.after {} es).interrupted_error cause.fault frame
      rw [ledger] at hstep
      have he : e = frame.error cause.fault step :=
        (Except.error.inj (hresult.symm.trans hr)).symm.trans hstep
      rw [Frame.error, Frame.root_action root] at he
      exact ⟨cause, step, stops, he⟩

end PageFlow
