import PageFlow.Page.Scripted
import PageFlow.Proofs.Plan.Involved
import PageFlow.Proofs.Run.Trace

namespace PageFlow

open Event (here)

def Plan.stepsOf : Option Plan → List PlannedStep
  | none => []
  | some plan => plan.steps

/-- Records follow planned steps from the first on, and nested records the steps of nested plans. -/
inductive Follows : List Entry → List PlannedStep → Prop
  | nil {planned : List PlannedStep} : Follows [] planned
  | cons {entry : Entry} {entries : List Entry} {step : PlannedStep} {planned : List PlannedStep}
    (at_index : entry.index = step.index) (kind : entry.kind = step.kind)
    (skipped : entry.outcome.isSkipped = step.skip.isSome)
    (args : ∀ args, entry.args = some args → step.args = some args)
    (nested : Follows entry.nested (Plan.stepsOf step.nested)) (rest : Follows entries planned) :
    Follows (entry :: entries) (step :: planned)

namespace Follows

variable {entries others : List Entry} {planned rest : List PlannedStep} {step : PlannedStep}

theorem append (h : Follows entries [step]) (hone : entries.length = 1)
    (ho : Follows others planned) : Follows (entries ++ others) (step :: planned) := by
  cases h with
  | nil => cases hone
  | cons at_index kind skipped args nested rest =>
    cases rest
    exact .cons at_index kind skipped args nested ho

theorem of_head (h : Follows entries [step]) : Follows entries (step :: planned) := by
  cases h with
  | nil => exact .nil
  | cons at_index kind skipped args nested rest =>
    cases rest
    exact .cons at_index kind skipped args nested .nil

theorem concat (h : Follows entries planned) {entry : Entry}
    (hs : planned[entries.length]? = some step) (at_index : entry.index = step.index)
    (kind : entry.kind = step.kind) (skipped : entry.outcome.isSkipped = step.skip.isSome)
    (args : entry.args = none) (nested : entry.nested = []) :
    Follows (entries ++ [entry]) planned := by
  induction entries generalizing planned with
  | nil =>
    obtain ⟨rest, rfl⟩ : ∃ rest, planned = step :: rest := by
      cases planned with
      | nil => cases hs
      | cons s rest => cases hs; exact ⟨rest, rfl⟩
    exact .cons at_index kind skipped (by simp [args]) (nested ▸ .nil) .nil
  | cons e entries ih =>
    cases h with
    | cons at_index kind skipped args nested rest =>
      exact .cons at_index kind skipped args nested (ih rest (by simpa using hs))

end Follows

/--
A step whose plan tells what it does: it records no value, has no fallback list to run, and names
the action that it runs by a text.
-/
structure Step.Plain (step : Step) (limits : Limits) (frame : Frame) : Prop where
  unrecorded : step.output = none
  alone : step.onError ≠ .fallback
  named : step.kind = .run → ∀ args, step.Runs limits (frame.vars {}) args →
    ∃ name, args.get? "action" = some (.string name)

def Settings.Plain (s : Settings) (x : Action × Frame) : Prop :=
  ∀ y, s.Involves x y → ∀ step ∈ y.1.steps, step.Plain s.limits y.2

theorem Settings.Plain.own {s : Settings} {a : Action} {frame : Frame} (h : s.Plain (a, frame))
    {index : Nat} {step : Step} (hs : a.steps[index]? = some step) : step.Plain s.limits frame :=
  h (a, frame) .refl step (List.mem_of_getElem? hs)

structure Heeded (es : List Event) (planned : List PlannedStep) (cut : Prop) : Prop where
  follows : Follows (entriesOf es) planned
  atWork : cut → ∃ s, planned[(entriesOf es).length]? = some s ∧ s.skip = none

structure HeedsOne (es : List Event) (planned : PlannedStep)
    (r : Option (Outcome (Progress × Option Json))) : Prop where
  follows : Follows (entriesOf es) [planned]
  done : ∀ after, after? r = some after → after.outputs = [] ∧ (entriesOf es).length = 1
  atWork : r = none → entriesOf es = [] ∧ planned.skip = none

/-- What a part of a run of plain actions records, by the plan of the part. -/
def Part.Heeds (settings : Settings) : (part : Part) → List Event → Option part.Result → Prop
  | action levels frame a, es, r => settings.Plain (a, frame) → ∀ p,
    a.planBody settings.limits (settings.enterPlan levels) frame = .ok p →
      Heeded es p.steps (r = none)
  | steps levels frame index list progress _, es, r => ∀ a : Action, a.steps.drop index = list →
    settings.Plain (a, frame) → progress.outputs = [] → ∀ started planned after,
      Step.planAll settings.limits (settings.enterPlan levels) frame index list started =
          .ok (planned, after) →
        Heeded es planned (r = none) ∧ ∀ after, after? r = some after → after.outputs = []
  | step levels frame index s progress, es, r => ∀ a : Action, a.steps[index]? = some s →
    settings.Plain (a, frame) → progress.outputs = [] → ∀ planned,
      s.Foretells settings.limits (settings.enterPlan levels) frame index planned →
        HeedsOne es planned r
  | ending _ _ index s args progress ended, es, r => s.output = none → s.onError ≠ .fallback →
    progress.outputs = [] → ∀ planned : PlannedStep, planned.index = index →
      planned.kind = s.kind → planned.skip = none → planned.args = some args →
        Follows ended.nested (Plan.stepsOf planned.nested) → HeedsOne es planned r
  | attempts levels frame index s args _ _, es, r => ∀ a : Action, a.steps[index]? = some s →
    settings.Plain (a, frame) → s.Runs settings.limits (frame.vars {}) args → ∀ nested,
      s.Expands (settings.enterPlan levels) frame index args nested →
        entriesOf es = [] ∧ ∀ ended, r = some ended → Follows ended.nested (Plan.stepsOf nested)
  | bounded levels frame index s args, es, _ | dispatch levels frame index s args, es, _ =>
    ∀ a : Action, a.steps[index]? = some s → settings.Plain (a, frame) →
      s.Runs settings.limits (frame.vars {}) args → ∀ nested,
        s.Expands (settings.enterPlan levels) frame index args nested →
          Follows (entriesOf es) (Plan.stepsOf nested)

theorem Heeded.congr {es fs : List Event} {planned : List PlannedStep} {cut : Prop}
    (h : Heeded fs planned cut) (heq : entriesOf es = entriesOf fs) : Heeded es planned cut :=
  ⟨heq ▸ h.follows, heq ▸ h.atWork⟩

namespace HeedsOne

variable {es fs : List Event} {planned : PlannedStep}
  {r : Option (Outcome (Progress × Option Json))}

theorem congr (h : HeedsOne fs planned r) (heq : entriesOf es = entriesOf fs) :
    HeedsOne es planned r :=
  ⟨heq ▸ h.follows, heq ▸ h.done, heq ▸ h.atWork⟩

theorem unrecorded (hes : entriesOf es = []) (e : ActionError) :
    HeedsOne es planned (some (.error e)) where
  follows := hes ▸ .nil
  done := by simp
  atWork := by simp

theorem cut (hes : entriesOf es = []) (runs : planned.skip = none) : HeedsOne es planned none where
  follows := hes ▸ .nil
  done := by simp
  atWork _ := ⟨hes, runs⟩

theorem recorded {entry : Entry} {r : Outcome (Progress × Option Json)}
    (hes : entriesOf es = [entry]) (at_index : entry.index = planned.index)
    (kind : entry.kind = planned.kind) (skipped : entry.outcome.isSkipped = planned.skip.isSome)
    (args : ∀ args, entry.args = some args → planned.args = some args)
    (nested : Follows entry.nested (Plan.stepsOf planned.nested))
    (kept : ∀ after, after? (some r) = some after → after.outputs = []) :
    HeedsOne es planned (some r) where
  follows := hes ▸ .cons at_index kind skipped args nested .nil
  done after h := ⟨kept after h, by rw [hes]; rfl⟩
  atWork := by simp

theorem unattempted {step : Step} {index : Nat} {r : Outcome (Progress × Option Json)}
    (outcome : StepOutcome) (hes : entriesOf es = [step.unattempted index outcome])
    (at_index : planned.index = index) (kind : planned.kind = step.kind)
    (skipped : outcome.isSkipped = planned.skip.isSome)
    (kept : ∀ after, after? (some r) = some after → after.outputs = []) :
    HeedsOne es planned (some r) :=
  recorded hes at_index.symm kind.symm skipped (fun _ h => by cases h) .nil kept

theorem ended {settings : Settings} {step : Step} {index : Nat} {args : Table Json}
    {tried : Attempted} {r : Outcome (Progress × Option Json)} (outcome : StepOutcome)
    (at_index : planned.index = index) (kind : planned.kind = step.kind)
    (runs : planned.skip = none) (noted : planned.args = some args)
    (nested : Follows tried.nested (Plan.stepsOf planned.nested))
    (attempted : outcome.isSkipped = false)
    (kept : ∀ after, after? (some r) = some after → after.outputs = []) :
    HeedsOne [here (.recorded (step.entry settings index args tried outcome []))] planned
      (some r) := by
  have hargs : ∀ given, (step.entry settings index args tried outcome []).args = some given →
      planned.args = some given := by
    intro given h
    rw [Step.entry] at h
    dsimp only at h
    split at h
    · rw [noted, h]
    · cases h
  refine recorded rfl at_index.symm kind.symm ?_ hargs ?_ kept
  · rw [runs]
    exact attempted
  · rw [Step.entry, List.append_nil]
    exact nested

end HeedsOne

/-- A step that is at work, or the records of the one that is over, by the plan of the step. -/
theorem Part.Heeds.head {settings : Settings} {levels : Nat} {frame : Frame} {index : Nat}
    {step : Step} {rest : List Step} {progress : Progress} {es : List Event}
    {r : Option (Outcome (Progress × Option Json))}
    (h : (Part.step levels frame index step progress).Heeds settings es r) {a : Action}
    (hdrop : a.steps.drop index = step :: rest) (hplain : settings.Plain (a, frame))
    (hprogress : progress.outputs = []) {started after : Nat} {planned : List PlannedStep}
    (hplan : Step.planAll settings.limits (settings.enterPlan levels) frame index (step :: rest)
      started = .ok (planned, after)) :
    ∃ first mid others, planned = first :: others ∧ HeedsOne es first r ∧
      Step.planAll settings.limits (settings.enterPlan levels) frame (index + 1) rest mid =
        .ok (others, after) := by
  obtain ⟨first, mid, others, rfl, hfirst, hothers⟩ := Step.planAll_cons_ok hplan
  have hone := h a (of_drop_eq_cons hdrop).1 hplain hprogress first (Step.planWith_foretells hfirst)
  exact ⟨first, mid, others, rfl, hone, hothers⟩

theorem Course.heeds {settings : Settings} {part : Part} {es : List Event}
    {r : Option part.Result} (h : Course settings part es r) : part.Heeds settings es r := by
  induction h with
  | actionCut steps ih | actionFails steps ih | actionDone steps concluded ih
    | actionRefused steps refused ih =>
    intro hplain p hplan
    obtain ⟨after, hsteps⟩ := Action.planBody_ok hplan
    obtain ⟨heeded, -⟩ := ih _ rfl hplain rfl 0 _ after hsteps
    refine Heeded.congr ⟨heeded.follows, fun h => ?_⟩ (by simp)
    cases h
    try exact heeded.atWork rfl
  | noSteps =>
    intro a hdrop hplain hprogress started planned after hplan
    exact ⟨⟨.nil, by simp⟩, by simpa using hprogress⟩
  | stepCut head ih =>
    intro a hdrop hplain hprogress started planned after hplan
    obtain ⟨first, mid, others, rfl, hone, hothers⟩ := ih.head hdrop hplain hprogress hplan
    obtain ⟨hnone, hskip⟩ := hone.atWork rfl
    exact ⟨⟨hone.follows.of_head, fun _ => ⟨first, by simp [hnone], hskip⟩⟩, by simp⟩
  | stepFails head ih =>
    intro a hdrop hplain hprogress started planned after hplan
    obtain ⟨first, mid, others, rfl, hone, hothers⟩ := ih.head hdrop hplain hprogress hplan
    exact ⟨⟨hone.follows.of_head, by simp⟩, by simp⟩
  | stepDone head tail ihHead ihTail =>
    intro a hdrop hplain hprogress started planned after hplan
    obtain ⟨first, mid, others, rfl, hone, hothers⟩ := ihHead.head hdrop hplain hprogress hplan
    obtain ⟨hkept, hlength⟩ := hone.done _ rfl
    obtain ⟨htail, hafter⟩ :=
      ihTail a (of_drop_eq_cons hdrop).2 hplain hkept mid others after hothers
    refine ⟨⟨?_, fun h => ?_⟩, hafter⟩
    · rw [entriesOf_append]
      exact hone.follows.append hlength htail.follows
    · rw [entriesOf_append, List.length_append, hlength, Nat.add_comm, List.getElem?_cons_succ]
      exact htail.atWork h
  | halted halt | overLimit full raised =>
    intro a hs hplain hprogress planned hplanned
    exact .unrecorded (by simp) _
  | skipped room skips =>
    intro a hs hplain hprogress planned hplanned
    -- Nothing is recorded, so the step is judged as it was when it was planned.
    rw [Frame.vars_begin hprogress] at skips
    obtain ⟨hskip, hnested⟩ := hplanned.skips skips
    apply HeedsOne.unattempted .skipped rfl hplanned.at_index hplanned.kind hskip.symm
    rintro after ⟨⟩
    exact hprogress
  | broken room breaks raised =>
    intro a hs hplain hprogress planned hplanned
    rw [Frame.vars_begin hprogress] at breaks
    have hskip := hplanned.breaks _ breaks
    apply HeedsOne.unattempted (.failed _) rfl hplanned.at_index hplanned.kind
    · rw [hskip]
      rfl
    · simp
  | attemptsCut room runs tries ih =>
    intro a hs hplain hprogress planned hplanned
    rw [Frame.vars_begin hprogress] at runs
    obtain ⟨hskip, hargs, hexpands⟩ := hplanned.runs _ runs
    obtain ⟨hes, -⟩ := ih a hs hplain runs _ hexpands
    exact .cut (by simpa using hes) hskip
  | attempted room runs tries ending ihTries ihEnding =>
    intro a hs hplain hprogress planned hplanned
    rw [Frame.vars_begin hprogress] at runs
    obtain ⟨hskip, hargs, hexpands⟩ := hplanned.runs _ runs
    obtain ⟨hes, hnested⟩ := ihTries a hs hplain runs _ hexpands
    have hstep := hplain.own hs
    have hone := ihEnding hstep.unrecorded hstep.alone hprogress planned hplanned.at_index
      hplanned.kind hskip hargs (hnested _ rfl)
    exact hone.congr (by simp [hes])
  | succeeded result =>
    intro hout halone hprogress planned hindex hkind hskip hargs hnested
    apply HeedsOne.ended (.succeeded _) hindex hkind hskip hargs hnested rfl
    intro after hafter
    cases hafter
    rw [hout]
    exact hprogress
  | aborted result final =>
    intro hout halone hprogress planned hindex hkind hskip hargs hnested
    exact HeedsOne.ended (.failed _) hindex hkind hskip hargs hnested rfl (by simp)
  | ignored result mild policy =>
    intro hout halone hprogress planned hindex hkind hskip hargs hnested
    exact HeedsOne.ended (.failed _) hindex hkind hskip hargs hnested rfl (by simpa using hprogress)
  | rescueCut result mild policy rescue ih | rescued result mild policy rescue ih
    | unrescued result mild policy rescue ih =>
    intro hout halone
    exact absurd policy halone
  | attemptCut once ih | pauseCut once mild ih =>
    intro a hs hplain runs nested hexpands
    exact ⟨by simp, by simp⟩
  | attemptLast once last ih | pauseHalted once mild halted ih =>
    intro a hs hplain runs nested hexpands
    refine ⟨by simp, ?_⟩
    rintro ended ⟨⟩
    exact ih a hs hplain runs nested hexpands
  | again once mild others ihOnce ihOthers =>
    intro a hs hplain runs nested hexpands
    obtain ⟨hes, hended⟩ := ihOthers a hs hplain runs nested hexpands
    exact ⟨by simp [hes], hended⟩
  | inTime work ih => exact ih
  | timedOut work bound raised ih =>
    intro a hs hplain runs nested hexpands
    have hfollows := ih a hs hplain runs nested hexpands
    simpa using hfollows
  | refused task raised | tooDeep task raised | noTarget task target =>
    intro a hs hplain runs nested hexpands
    simpa using Follows.nil
  | @ran levels _ _ _ _ _ _ _ _ _ _ task target body ih =>
    intro a hs hplain runs nested hexpands
    have kind := Task.ofArgs_run task
    obtain ⟨text, named⟩ := (hplain.own hs).named kind _ runs
    obtain ⟨rfl, rfl⟩ := Task.ofArgs_named task named
    have hchild := Settings.Involves.step hplain (.run hs kind runs named target)
    have henter := Action.enterPlan_target levels target
    -- The name is a text and the lookup succeeds, so the plan can only have expanded the action.
    cases hexpands with
    | other other => exact absurd kind other
    | unnamed _ unnamed => exact absurd named (unnamed _)
    | refused _ other refused mild =>
      cases named.symm.trans other
      have hbody := Action.planBody_error (henter.symm.trans refused)
      exact absurd (Step.planAll_error _ hbody) mild
    | nested _ other planned =>
      cases named.symm.trans other
      exact (ih hchild _ (henter.symm.trans planned)).follows
  | onPage asked few | pageFails asked few raised =>
    intro a hs hplain runs nested hexpands
    simpa using Follows.nil

variable {σ : Type}

/--
A plan that was made foretells every run on every page, as long as no step of the actions that are
reached records a value or has a fallback list to run: the records of the run are of the planned
steps, from the first on, and so are the records that are nested in them.
-/
theorem execute_follows_plan (settings : Settings) (page : Page σ) (state : σ)
    (cancellation : Cancellation) (a : Action) (params env : Json) {p : Plan}
    (planned : a.plan settings.registry settings.limits params env = .ok p)
    (plain : ∀ frame, Frame.root settings.registry a params env = .ok frame →
      settings.Plain (a, frame)) :
    Follows (execute settings page state cancellation a params env).1.trace p.steps := by
  rw [Action.plan] at planned
  obtain ⟨frame, hroot, hbody⟩ := Outcome.bind_eq_ok.1 planned
  have hgoes := execute_goes settings page state cancellation a params env
  cases hgoes with
  | unbound root events reported =>
    cases hroot.symm.trans root
  | ended root course result trace =>
    cases hroot.symm.trans root
    have heeded := course.heeds (plain frame hroot) p hbody
    rw [trace]
    exact heeded.follows
  | interrupted root course stops ledger result trace =>
    cases hroot.symm.trans root
    have heeded := course.heeds (plain frame hroot) p hbody
    obtain ⟨f, step, hs, hindex, hshows, hafter⟩ := course.tells.2.ledger
    rw [hafter] at ledger
    cases ledger
    rw [trace]
    rw [entriesAt_nil] at *
    -- The step in flight is the one after those that are recorded, here and in the plan.
    obtain ⟨s, hnext, hskip⟩ := heeded.atWork rfl
    obtain ⟨after, hplan⟩ := Action.planBody_ok hbody
    obtain ⟨t, ht, hat, hkind⟩ := Step.planAll_getElem? a.steps hplan _ s hnext
    cases hs.symm.trans ht
    refine heeded.follows.concat hnext ?_ ?_ ?_ rfl rfl
    · rw [hat, Nat.zero_add]
      exact hindex
    · exact hshows.kind.trans hkind.symm
    · rw [hskip]
      rfl

def stop : Action where
  name := "stop"
  steps := [{ kind := .visit, args := [("url", .string "/")] }]

def tour : Action where
  name := "tour"
  steps := [
    { kind := .run, args := [("action", .string "stop")] },
    { kind := .visit, args := [("url", .string "/")], condition := some "false" }]

def touring : Settings where
  registry := .ofActions [stop]
  debug := true

theorem touring_involves {frame : Frame} {y : Action × Frame}
    (h : touring.Involves (tour, frame) y) : y.1 = tour ∨ y.1 = stop := by
  induction h with
  | refl => exact .inl rfl
  | tail _ leads ih =>
    cases leads with
    | run listed kind runs named target =>
      have hmem := Frame.mem_of_target target
      exact .inr (List.mem_singleton.1 hmem)

theorem touring_plain (frame : Frame) : touring.Plain (tour, frame) := by
  rintro ⟨b, child⟩ hy step hstep
  rcases touring_involves hy with rfl | rfl
  · obtain rfl | rfl : step = _ ∨ step = _ := by simpa [tour] using hstep
    · have hname : interpolate (child.vars {}) "stop" = .ok "stop" :=
        interpolate_of_none (by decide) _
      refine ⟨rfl, nofun, fun _ args runs => ⟨"stop", ?_⟩⟩
      have hargs := runs.2
      simp only [interpolateFields, interpolateJson, hname] at hargs
      cases hargs
      rfl
    · exact ⟨rfl, nofun, nofun⟩
  · cases List.mem_singleton.1 hstep
    exact ⟨rfl, nofun, nofun⟩

/-- The plan of a tour foretells its run. -/
theorem execute_follows_plan_tour :
    ∃ p, tour.plan touring.registry touring.limits .null .null = .ok p ∧
      (execute touring Script.page {} {} tour .null .null).1.trace.length = 2 ∧
      Follows (execute touring Script.page {} {} tour .null .null).1.trace p.steps := by
  cases hplan : tour.plan touring.registry touring.limits .null .null with
  | error e =>
    have hsome : (tour.plan touring.registry touring.limits .null .null).toOption.isSome := by
      decide +kernel
    rw [hplan] at hsome
    cases hsome
  | ok p =>
    have hfollows := execute_follows_plan touring Script.page {} {} tour .null .null hplan
      fun frame _ => touring_plain frame
    exact ⟨p, rfl, by decide +kernel, hfollows⟩

end PageFlow
