import PageFlow.Proofs.Plan.Targets

namespace PageFlow

abbrev Entrance (γ : Type) :=
  (frame : Frame) → (index : Nat) → (name : String) → (params : Json) → γ

/--
What is worked out from a way to enter actions looks one action up by a name: it takes nothing else
from the way, and what it takes matters.
-/
structure Consults {γ δ : Type} (f : Entrance γ → δ) (frame : Frame) (index : Nat) (params : Json)
    (name : String) : Prop where
  only : ∀ enter enter' : Entrance γ,
    enter frame index name params = enter' frame index name params → f enter = f enter'
  needs : ∃ enter enter' : Entrance γ, f enter ≠ f enter'

namespace Consults

variable {γ δ : Type} {f : Entrance γ → δ} {frame : Frame} {index : Nat} {params : Json}
  {name text : String}

theorem unique (h : Consults f frame index params name) (h' : Consults f frame index params text) :
    name = text := by
  by_contra hne
  obtain ⟨enter, enter', hdiffer⟩ := h.needs
  -- One way under the first name, and the other way under the second.
  let mixed : Entrance γ := fun g i n p => if n = name then enter g i n p else enter' g i n p
  have hfirst : f enter = f mixed := h.only _ _ (if_pos rfl).symm
  have hsecond : f mixed = f enter' := h'.only _ _ (if_neg (Ne.symm hne))
  exact hdiffer (hfirst.trans hsecond)

theorem iff_eq (h : Consults f frame index params name) :
    Consults f frame index params text ↔ text = name :=
  ⟨fun h' => h'.unique h, fun heq => heq ▸ h⟩

theorem not_of_eq {r : δ} (h : ∀ enter, f enter = r) : ¬ Consults f frame index params name := by
  intro hf
  obtain ⟨enter, enter', hdiffer⟩ := hf.needs
  exact hdiffer ((h enter).trans (h enter').symm)

end Consults

/-- The text that an argument stands for where a text is wanted. -/
inductive Json.Spells : Json → String → Prop
  | string (s : String) : Spells (.string s) s
  | number (n : Numeral) : Spells (.number n) (Value.ofJson (.number n)).display
  | bool (b : Bool) : Spells (.bool b) (Value.ofJson (.bool b)).display

theorem textArg_eq_ok {args : Table Json} {kind : StepKind} {key text : String} :
    textArg args kind key = .ok text ↔ ∃ value, args.get? key = some value ∧ value.Spells text := by
  rw [textArg]
  constructor
  · intro h
    cases hvalue : args.get? key with
    | none =>
      rw [hvalue] at h
      cases h
    | some value =>
      rw [hvalue] at h
      cases value with
      | null | array items | object fields => cases h
      | string s =>
        cases h
        exact ⟨_, rfl, .string s⟩
      | number n =>
        cases h
        exact ⟨_, rfl, .number n⟩
      | bool b =>
        cases h
        exact ⟨_, rfl, .bool b⟩
  · rintro ⟨value, hvalue, hspells⟩
    rw [hvalue]
    cases hspells <;> rfl

namespace Step

variable {step : Step} {frame : Frame} {index timeout : Nat} {args : Table Json} {name : String}

/-- An attempt at a `run` step enters the action that its arguments spell, or is refused. -/
theorem dispatch_run (kind : step.kind = .run) (enter : Enter) :
    step.dispatch enter frame index args timeout = match textArg args .run "action" with
      | .ok name => enter frame index name (given args)
      | .error fault => Routine.raise (frame.error fault.toFault (some index)) := by
  have htask : Task.ofArgs args step.kind frame.selectors timeout =
      (textArg args .run "action").map fun name => .run name (given args) := by
    rw [kind]
    rfl
  rw [dispatch, htask]
  cases textArg args .run "action" <;> rfl

def RunsUnder (step : Step) (frame : Frame) (index : Nat) (args : Table Json) (timeout : Nat)
    (name : String) : Prop :=
  Consults (fun enter => step.dispatch enter frame index args timeout) frame index (given args) name

def PlannedUnder (frame : Frame) (index : Nat) (args : Table Json) (planned : PlannedStep)
    (name : String) : Prop :=
  Consults (fun enter => planTarget enter frame index args planned) frame index (given args) name

theorem runsUnder_iff (kind : step.kind = .run) :
    step.RunsUnder frame index args timeout name ↔
      ∃ value, args.get? "action" = some value ∧ value.Spells name := by
  have hspelled : textArg args .run "action" = .ok name ↔ _ := textArg_eq_ok
  rw [← hspelled]
  cases htext : textArg args .run "action" with
  | ok text =>
    have htext' : step.RunsUnder frame index args timeout text := by
      constructor
      · intro enter enter' heq
        simpa only [dispatch_run kind, htext] using heq
      · refine ⟨fun _ _ _ _ => .done (.ok .null), fun _ _ _ _ => .done (.ok (.bool true)), ?_⟩
        simp [dispatch_run kind, htext]
    rw [RunsUnder, htext'.iff_eq, Except.ok.injEq]
    exact eq_comm
  | error fault =>
    have hnone : ¬ step.RunsUnder frame index args timeout name := by
      apply Consults.not_of_eq
      intro enter
      rw [dispatch_run kind, htext]
    simp [hnone]

/-- What a plan notes of a `run` step whose argument is no string. -/
def unnamed : PlanIssue :=
  .argument (.invalidArgument "run step requires 'action'")

variable {planned : PlannedStep}

theorem planTarget_unnamed {enter : EnterPlan}
    (h : ∀ name, args.get? "action" ≠ some (.string name)) :
    planTarget enter frame index args planned = .ok { planned with issue := some unnamed } := by
  rw [planTarget]
  split
  · next name named => exact absurd named (h name)
  · rfl

theorem plannedUnder_iff : PlannedUnder frame index args planned name ↔
    args.get? "action" = some (.string name) := by
  by_cases hnamed : ∃ text, args.get? "action" = some (.string text)
  · obtain ⟨text, named⟩ := hnamed
    have htext : PlannedUnder frame index args planned text := by
      let stop (limit : Nat) : EnterPlan := fun _ _ _ _ =>
        .error (.raised (.maxDepthExceeded limit) frame.action none)
      constructor
      · intro enter enter' heq
        simp only [planTarget, named, heq]
      · refine ⟨stop 0, stop 1, ?_⟩
        simp [stop, planTarget, named, ActionError.isFatal, ActionError.severity,
          ActionFault.severity]
    rw [PlannedUnder, htext.iff_eq, named]
    simp [eq_comm]
  · have hnone : ∀ text, args.get? "action" ≠ some (.string text) :=
      fun text named => hnamed ⟨text, named⟩
    have hconstant : ¬ PlannedUnder frame index args planned name :=
      Consults.not_of_eq fun enter => planTarget_unnamed hnone
    simp [hconstant, hnone]

/-- A value whose text a run takes for a name, though it is no string. -/
inductive Unquoted : Json → Prop
  | number (n : Numeral) : Unquoted (.number n)
  | bool (b : Bool) : Unquoted (.bool b)

structure Names (step : Step) (frame : Frame) (index : Nat) (args : Table Json) (timeout : Nat)
    (planned : PlannedStep) : Prop where
  runs : ∀ name, step.RunsUnder frame index args timeout name ↔
    ∃ value, args.get? "action" = some value ∧ value.Spells name
  plans : ∀ name, PlannedUnder frame index args planned name ↔
    args.get? "action" = some (.string name)
  /-- What a plan looks up is what a run looks up. -/
  shared : ∀ name, PlannedUnder frame index args planned name →
    step.RunsUnder frame index args timeout name
  alike : (∀ name, PlannedUnder frame index args planned name ↔
      step.RunsUnder frame index args timeout name) ↔
    ∀ value, args.get? "action" = some value → ¬ Unquoted value
  /-- An argument that a run refuses is noted in a plan, and nothing is planned for it. -/
  refused : ∀ message, (∀ enter, step.dispatch enter frame index args timeout =
      Routine.raise (frame.error (.invalidArgument message) (some index))) →
    ∀ enter, planTarget enter frame index args planned =
      .ok { planned with issue := some unnamed }

/--
For any arguments of a `run` step: a plan looks up an action if its name is given as a string, and
then so does a run, under the same name. They look up the same but for an argument that is a number
or a truth value, whose text a run takes for the name. An argument that a run refuses is noted in
the plan, without a plan of an action.
-/
theorem run_names (kind : step.kind = .run) : step.Names frame index args timeout planned where
  runs name := runsUnder_iff kind
  plans name := plannedUnder_iff
  shared name h := by
    rw [plannedUnder_iff] at h
    rw [runsUnder_iff kind]
    exact ⟨_, h, .string name⟩
  alike := by
    simp only [plannedUnder_iff, runsUnder_iff kind]
    constructor
    · intro halike value hvalue hunquoted
      cases hunquoted with
      | number n =>
        have hstring := (halike _).2 ⟨_, hvalue, .number n⟩
        cases hvalue.symm.trans hstring
      | bool b =>
        have hstring := (halike _).2 ⟨_, hvalue, .bool b⟩
        cases hvalue.symm.trans hstring
    · intro hnone name
      constructor
      · exact fun h => ⟨_, h, .string name⟩
      · rintro ⟨value, hvalue, hspells⟩
        cases hspells with
        | string s => exact hvalue
        | number n => exact absurd (.number n) (hnone _ hvalue)
        | bool b => exact absurd (.bool b) (hnone _ hvalue)
  refused message h enter := by
    apply planTarget_unnamed
    intro name named
    have hruns : step.RunsUnder frame index args timeout name :=
      (runsUnder_iff kind).2 ⟨_, named, .string name⟩
    exact Consults.not_of_eq h hruns

end Step

def fifth : Action where
  name := "5"
  steps := [{ kind := .visit, args := [("url", .string "/a")] }]

def dial : Step :=
  { kind := .run, args := [("action", .nat 5)] }

def dialling : Action where
  name := "caller"
  steps := [dial]

def dialled : Settings where
  registry := .ofActions [dialling, fifth]

/-- The number is looked up as it is written in a run, and not at all in a plan. -/
theorem run_names_dial :
    let frame := Frame.ofAction dialled.registry dialling 0 [] []
    dial.RunsUnder frame 0 dial.args 30000 "5" ∧
      ∀ name, ¬ Step.PlannedUnder frame 0 dial.args (dial.blankPlan 0) name := by
  intro frame
  have hnames : dial.Names frame 0 dial.args 30000 (dial.blankPlan 0) := Step.run_names rfl
  constructor
  · have hspells : (Json.nat 5).Spells (Value.ofJson (.nat 5)).display := .number (.int 5)
    have htext : (Value.ofJson (.nat 5)).display = "5" := by decide +kernel
    exact (hnames.runs "5").2 ⟨_, rfl, htext ▸ hspells⟩
  · intro name
    rw [hnames.plans]
    exact nofun

/-- The action runs, though its plan notes that no target is named, and plans none. -/
theorem plan_misses_dialled :
    let run := (execute dialled Script.page {} {} dialling .null .null).1
    let frame := Frame.ofAction dialled.registry dialling 0 [] []
    run.result.isOk ∧ run.calls.map (·.2.key) = ["navigate:/a"] ∧
      (dialling.plan dialled.registry dialled.limits .null .null).map
        (fun p => p.steps.map fun s => (s.issue, s.nested.isSome)) =
          .ok [(some Step.unnamed, false)] ∧
      ¬ ∀ name, Step.PlannedUnder frame 0 dial.args (dial.blankPlan 0) name ↔
        dial.RunsUnder frame 0 dial.args 30000 name := by
  intro run frame
  refine ⟨by decide +kernel, by decide +kernel, by decide +kernel, fun halike => ?_⟩
  have hruns : dial.RunsUnder frame 0 dial.args 30000 (Value.ofJson (.nat 5)).display :=
    (Step.runsUnder_iff rfl).2 ⟨_, rfl, .number (.int 5)⟩
  cases Step.plannedUnder_iff.1 ((halike _).2 hruns)

end PageFlow
