import PageFlow.Page.Scripted
import PageFlow.Proofs.Plan.Involved
import PageFlow.Proofs.Run.Record
import PageFlow.Proofs.Run.Report

namespace PageFlow

open Event (here)

inductive Flawless : List Entry → Prop
  | nil : Flawless []
  | cons {entry : Entry} {entries : List Entry} (own : entry.outcome.error? = none)
    (nested : Flawless entry.nested) (rest : Flawless entries) : Flawless (entry :: entries)

theorem flawless_append {entries others : List Entry} (h : Flawless (entries ++ others)) :
    Flawless entries ∧ Flawless others := by
  induction entries with
  | nil => exact ⟨.nil, h⟩
  | cons entry entries ih =>
    cases h with
    | cons own nested rest =>
      obtain ⟨hentries, hothers⟩ := ih rest
      exact ⟨.cons own nested hentries, hothers⟩

def Step.Spares (step : Step) : Prop :=
  step.onError = .fallback ∧ step.fallback ≠ []

/--
How fallback lists keep an action from being planned: one of them cannot be planned itself, at the
level of the action and with room for its step, or a step after it is one too many.
-/
inductive Settings.Obstructs (s : Settings) : Action × Frame → ActionError → Prop
  | refused {a : Action} {frame : Frame} {index levels started : Nat} {step : Step}
    {e : ActionError} (listed : a.steps[index]? = some step) (spares : step.Spares)
    (level : frame.depth + levels = s.limits.maxDepth) (room : started ≤ s.limits.maxSteps)
    (refused : Step.planAll s.limits (s.enterPlan levels) frame 0 step.fallback started =
      .error e) : Obstructs s (a, frame) e
  | crowded {a : Action} {frame : Frame} {index later : Nat} {step : Step}
    (listed : a.steps[index]? = some step) (spares : step.Spares) (after : index < later) :
    Obstructs s (a, frame) (frame.error (.maxStepsExceeded s.limits.maxSteps) (some later))

/-- If it fails, then because of fallback lists of an action that is reached from the given one. -/
def Settings.Clears {α : Type} (s : Settings) (x : Action × Frame) (o : Outcome α) : Prop :=
  ∀ e, o = .error e → ∃ y, s.Involves x y ∧ s.Obstructs y e

/-- No step of the actions that are reached from an action records a value. -/
def Settings.Unrecorded (s : Settings) (x : Action × Frame) : Prop :=
  ∀ y, s.Involves x y → ∀ step ∈ y.1.steps, step.output = none

/-- No step records a value from an action on, so many levels above the limit on nesting. -/
structure Settings.UnrecordedAt (s : Settings) (levels : Nat) (x : Action × Frame) : Prop where
  unrecorded : s.Unrecorded x
  level : x.2.depth + levels = s.limits.maxDepth

/-- How many steps are planned where so many have run, before the step with an index. -/
def Action.Counts (a : Action) (index ran planned : Nat) : Prop :=
  planned = ran ∨ ∃ i < index, ∃ step, a.steps[i]? = some step ∧ step.Spares

namespace Step

variable {settings : Settings} {levels index started : Nat} {a : Action} {frame : Frame}
  {step : Step}

/-- A step that went through is planned, or fallback lists stand against it. -/
def Clears (step : Step) (settings : Settings) (levels : Nat) (a : Action) (frame : Frame)
    (index : Nat) : Prop :=
  step.Skips settings.limits (frame.vars {}) ∨
    step.Passes settings.limits (frame.vars {}) ∧ ∀ blank,
      settings.Clears (a, frame) (step.planArgs (settings.enterPlan levels) frame index blank)

theorem spares_of_error (policy : step.onError = .fallback) {e : ActionError} {enter : EnterPlan}
    (h : planAll settings.limits enter frame 0 step.fallback started = .error e) :
    step.Spares := by
  refine ⟨policy, ?_⟩
  intro hnone
  rw [hnone] at h
  cases h

theorem planWith_clears {ran : Nat} (hs : a.steps[index]? = some step)
    (level : frame.depth + levels = settings.limits.maxDepth)
    (room : ran < settings.limits.maxSteps) (counts : a.Counts index ran started)
    (clears : step.Clears settings levels a frame index) :
    settings.Clears (a, frame)
      (step.planWith settings.limits (settings.enterPlan levels) frame index
        (planAll settings.limits (settings.enterPlan levels) frame 0 step.fallback) started) := by
  intro e he
  cases planWith_plans step with
  | overLimit full result =>
    cases he.symm.trans result
    rcases counts with rfl | ⟨i, hi, s, hs, spares⟩
    · exact absurd room (Nat.not_lt_of_le full)
    · exact ⟨_, .refl, .crowded hs spares hi⟩
  | skipped _ skips at_index kind skip nested result => cases he.symm.trans result
  | broken _ judged policy result =>
    rcases clears with (hfails | ⟨-, hpolicy⟩) | ⟨hholds | ⟨-, hpolicy⟩, -⟩
    · cases judged.symm.trans hfails
    · cases policy.symm.trans hpolicy
    · cases judged.symm.trans hholds
    · cases policy.symm.trans hpolicy
  | runs hroom passes at_index kind skip nested result =>
    rcases clears with skips | ⟨-, hargs⟩
    · exact (skips.not_passes passes).elim
    rcases planRun_error (result.symm.trans he) with he | ⟨policy, he⟩
    · exact hargs _ e he
    · exact ⟨_, .refl, .refused hs (spares_of_error policy he) level hroom he⟩

theorem planWith_counts {ran mid : Nat} {planned : PlannedStep} (hs : a.steps[index]? = some step)
    (counts : a.Counts index ran started)
    (h : step.planWith settings.limits (settings.enterPlan levels) frame index
      (planAll settings.limits (settings.enterPlan levels) frame 0 step.fallback) started =
        .ok (planned, mid)) : a.Counts (index + 1) (ran + 1) mid := by
  rcases counts with rfl | ⟨i, hi, s, hs, spares⟩
  · have hgives : (settings.enterPlan levels).Gives frame fun _ => True := fun _ _ _ _ _ => trivial
    obtain ⟨-, -, hmid⟩ := planWith_ok hgives h
    rcases hmid with ⟨-, rfl⟩ | ⟨policy, hrescue⟩
    · exact .inl rfl
    by_cases hnone : step.fallback = []
    · rw [hnone] at hrescue
      have hmid := congrArg Prod.snd (Except.ok.inj hrescue)
      exact .inl hmid.symm
    · exact .inr ⟨index, Nat.lt_succ_self index, step, hs, policy, hnone⟩
  · exact .inr ⟨i, Nat.lt_succ_of_lt hi, s, hs, spares⟩

end Step

/-- What a part of a run without failures says of its plan. -/
def Part.Clears (settings : Settings) : (part : Part) → List Event → Option part.Result → Prop
  | action levels frame a, es, r => settings.UnrecordedAt levels (a, frame) →
    Flawless (entriesOf es) → ∀ value, r = some (.ok value) → settings.Clears (a, frame)
      (a.planBody settings.limits (settings.enterPlan levels) frame)
  | steps levels frame index list progress _, es, r => ∀ a : Action, a.steps.drop index = list →
    settings.UnrecordedAt levels (a, frame) → progress.outputs = [] → Flawless (entriesOf es) →
      ∀ result, r = some (.ok result) → ∀ started, a.Counts index progress.started started →
        settings.Clears (a, frame) (Step.planAll settings.limits (settings.enterPlan levels) frame
          index list started)
  | step levels frame index s progress, es, r => ∀ a : Action, a.steps[index]? = some s →
    settings.UnrecordedAt levels (a, frame) → progress.outputs = [] → Flawless (entriesOf es) →
      ∀ result, r = some (.ok result) → result.1 = progress.begin ∧
        progress.started < settings.limits.maxSteps ∧ s.Clears settings levels a frame index
  | ending _ _ _ s _ progress ended, es, r => s.output = none → Flawless (entriesOf es) →
    ∀ result, r = some (.ok result) → result.1 = progress ∧
      (∃ value, ended.result = .ok value) ∧ Flawless ended.nested
  | attempts levels frame index s args _ _, _, r => ∀ a : Action, a.steps[index]? = some s →
    settings.UnrecordedAt levels (a, frame) → s.Runs settings.limits (frame.vars {}) args →
      ∀ ended value, r = some ended → ended.result = .ok value → Flawless ended.nested →
        ∀ blank, settings.Clears (a, frame)
          (s.planArgs (settings.enterPlan levels) frame index blank)
  | bounded levels frame index s args, es, r | dispatch levels frame index s args, es, r =>
    ∀ a : Action, a.steps[index]? = some s → settings.UnrecordedAt levels (a, frame) →
      s.Runs settings.limits (frame.vars {}) args → ∀ value, r = some (.ok value) →
        Flawless (entriesOf es) → ∀ blank, settings.Clears (a, frame)
          (s.planArgs (settings.enterPlan levels) frame index blank)

theorem Course.clears {settings : Settings} {part : Part} {es : List Event}
    {r : Option part.Result} (h : Course settings part es r) : part.Clears settings es r := by
  induction h with
  | actionCut steps ih | actionFails steps ih | actionRefused steps refused ih =>
    intro hout hes value hr
    cases hr
  | actionDone steps concluded ih =>
    intro hout hes value hr e he
    exact ih _ rfl hout rfl (by simpa using hes) _ rfl 0 (.inl rfl) e (Action.planBody_error he)
  | noSteps =>
    intro a hdrop hout hprogress hes result hr started counts e he
    cases he
  | stepCut head ih | stepFails head ih =>
    intro a hdrop hout hprogress hes result hr
    cases hr
  | stepDone head tail ihHead ihTail =>
    intro a hdrop hout hprogress hes result hr started counts e he
    rw [entriesOf_append] at hes
    obtain ⟨hhead, htail⟩ := flawless_append hes
    obtain ⟨hs, hrest⟩ := of_drop_eq_cons hdrop
    obtain ⟨rfl, room, clears⟩ := ihHead a hs hout hprogress hhead _ rfl
    -- The plan fails at the first step, or after it with what it counts for the step.
    rcases Step.planAll_cons_error he with he | ⟨first, mid, hfirst, he⟩
    · exact Step.planWith_clears hs hout.level room counts clears e he
    · have hcounts := Step.planWith_counts hs counts hfirst
      exact ihTail a hrest hout hprogress htail result hr mid hcounts e he
  | halted halt | overLimit full raised | broken room breaks raised =>
    intro a hs hout hprogress hes result hr
    cases hr
  | skipped room skips =>
    intro a hs hout hprogress hes result hr
    cases hr
    rw [Frame.vars_begin hprogress] at skips
    exact ⟨rfl, room, .inl skips⟩
  | attemptsCut room runs tries ih =>
    intro a hs hout hprogress hes result hr
    cases hr
  | attempted room runs tries ending ihTries ihEnding =>
    intro a hs hout hprogress hes result hr
    rw [Frame.vars_begin hprogress] at runs
    have hstep := hout.unrecorded _ .refl _ (List.mem_of_getElem? hs)
    obtain ⟨-, hending⟩ : Flawless _ ∧ Flawless _ := flawless_append (by simpa using hes)
    obtain ⟨hafter, ⟨value, hvalue⟩, hnested⟩ := ihEnding hstep hending result hr
    have hargs := ihTries a hs hout runs _ value rfl hvalue hnested
    exact ⟨hafter, room, .inr ⟨runs.1, hargs⟩⟩
  | @succeeded _ _ _ _ _ _ ended value result =>
    intro hout hes given hr
    cases hr
    refine ⟨?_, ⟨value, result⟩, ?_⟩
    · rw [hout]
      rfl
    · cases hes with
      | cons own nested rest => exact (flawless_append nested).1
  | aborted result final | unrescued result mild policy rescue ih =>
    intro hout hes given hr
    cases hr
  | ignored result mild policy =>
    intro hout hes given hr
    cases hes with
    | cons own nested rest => cases own
  | rescueCut result mild policy rescue ih =>
    intro hout hes given hr
    cases hr
  | rescued result mild policy rescue ih =>
    intro hout hes given hr
    rw [entriesOf_append] at hes
    cases (flawless_append hes).2 with
    | cons own nested rest => cases own
  | attemptCut once ih | pauseCut once mild ih =>
    intro a hs hout runs ended value hr
    cases hr
  | attemptLast once last ih =>
    intro a hs hout runs ended value hr hvalue hnested
    cases hr
    exact ih a hs hout runs value (congrArg some hvalue) hnested
  | pauseHalted once mild halted ih =>
    intro a hs hout runs ended value hr hvalue
    cases hr
    cases hvalue
  | again once mild others ihOnce ihOthers => exact ihOthers
  | inTime work ih => exact ih
  | timedOut work bound raised ih =>
    intro a hs hout runs value hr
    cases hr
  | refused task raised | tooDeep task raised | noTarget task target =>
    intro a hs hout runs value hr
    cases hr
  | @ran levels frame _ _ _ _ _ b bound _ r task target body ih =>
    intro a hs hout runs value hr hes blank e he
    obtain ⟨-, kind, hargs⟩ := Step.planArgs_error he
    obtain ⟨text, named, he⟩ := hargs _ runs.2
    obtain ⟨rfl, rfl⟩ := Task.ofArgs_named task named
    rw [Action.enterPlan_target levels target] at he
    have hlead : settings.Leads _ _ := .run hs kind runs named target
    have hvalue : r = some (.ok value) := by
      obtain _ | _ | _ := r <;> cases hr
      rfl
    have hchild := Settings.Involves.step hout.unrecorded hlead
    have hlevel : frame.depth + 1 + levels = settings.limits.maxDepth := by
      rw [Nat.add_right_comm]
      exact hout.level
    obtain ⟨y, hy, obstructs⟩ := ih ⟨hchild, hlevel⟩ hes value hvalue e he
    exact ⟨y, .head hlead hy, obstructs⟩
  | onPage asked few =>
    intro a hs hout runs value hr hes blank e he
    obtain ⟨-, kind, -⟩ := Step.planArgs_error he
    exact absurd kind (Task.ofArgs_page asked)
  | pageFails asked few raised =>
    intro a hs hout runs value hr
    cases hr

variable {σ : Type}

def narrow : Settings where
  limits := { maxSteps := 1 }

end PageFlow
