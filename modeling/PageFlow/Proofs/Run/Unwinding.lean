import PageFlow.Page.Scripted
import PageFlow.Proofs.Plan.Targets
import PageFlow.Proofs.Run.Bounds
import PageFlow.Proofs.Run.Nesting
import PageFlow.Proofs.Run.Propagation

namespace PageFlow

open Event (here)

namespace ActionError

def innermost : ActionError → ActionError
  | raised fault action step => raised fault action step
  | stepFailed cause _ _ => cause.innermost

/-- The steps whose layers are around a failure, the outermost first. -/
def layers : ActionError → List (String × Nat)
  | raised .. => []
  | stepFailed cause action step => (action, step) :: cause.layers

/-- The layer of the step at which a failure is raised, if that step can handle it. -/
def ownLayer (e : ActionError) : List (String × Nat) :=
  if e.isFatal then [] else e.step?.toList.map (e.action, ·)

theorem isFatal_raised {fault : ActionFault} {action : String} {step : Option Nat} :
    (raised fault action step).isFatal ↔ fault.severity = .fatal :=
  decide_eq_true_iff

theorem not_isFatal_raised {fault : ActionFault} {action : String} {step : Option Nat}
    (mild : fault.severity = .recoverable) : ¬ (raised fault action step).isFatal := by
  rw [isFatal_raised, mild]
  exact nofun

@[simp] theorem innermost_failStep (e : ActionError) (action : String) (step : Nat) :
    (e.failStep action step).innermost = e.innermost := by
  cases e with
  | raised fault a s =>
    rw [failStep]
    split <;> rfl
  | stepFailed cause a s =>
    unfold failStep
    dsimp only
    split
    · rfl
    · split <;> rfl

theorem innermost_escapes {e : ActionError} (h : e.escapes) : e.innermost.escapes := by
  cases e with
  | raised fault a s => exact h
  | stepFailed cause a s => cases h

@[simp] theorem innermost_failRun (e : ActionError) (action : String) (step : Nat) :
    (e.failRun action step).innermost = e.innermost := by
  rw [failRun]
  split <;> rfl

end ActionError

def RaisedLast (es : List Event) (place : Place) (e : ActionError) : Prop :=
  ∃ before after, es = before ++ .noted ⟨.raised e, place⟩ :: after ∧ ∀ x ∈ after, x.IsRecord

theorem RaisedLast.raise (before : List Event) (e : ActionError) :
    RaisedLast (before ++ [here (.raised e)]) [] e :=
  ⟨before, [], rfl, nofun⟩

theorem RaisedLast.unique {es : List Event} {place place' : Place} {e e' : ActionError}
    (h : RaisedLast es place e) (h' : RaisedLast es place' e') : place = place' ∧ e = e' := by
  obtain ⟨before, after, rfl, records⟩ := h
  obtain ⟨before', after', heq, records'⟩ := h'
  rcases List.append_eq_append_iff.1 heq with ⟨between, -, htail⟩ | ⟨between, -, htail⟩
  · cases between with
    | nil =>
      cases htail
      exact ⟨rfl, rfl⟩
    | cons x between =>
      obtain ⟨-, rfl⟩ := List.cons.inj htail
      have hlater := records (.noted ⟨.raised e', place'⟩) (by simp)
      exact absurd hlater (Event.not_isRecord_raised _ _)
  · cases between with
    | nil =>
      cases htail
      exact ⟨rfl, rfl⟩
    | cons x between =>
      obtain ⟨-, rfl⟩ := List.cons.inj htail
      have hlater := records' (.noted ⟨.raised e, place⟩) (by simp)
      exact absurd hlater (Event.not_isRecord_raised _ _)

/-- A step on the way to a nested action: where it is, and which attempt at it leads there. -/
structure Hop where
  action : String
  index : Nat
  count : Nat

def Hop.layer (h : Hop) : String × Nat :=
  (h.action, h.index)

/--
The way by which the action with a name, at work in a place, comes to fail: the steps that lead to
the action in which the failure is raised, each with its last attempt.
-/
inductive CallPath (es : List Event) : Place → String → List Hop → ActionError → Prop
  /-- The action fails by itself, outside of attempts. -/
  | action {place : Place} {name : String} {fault : ActionFault} {step : Option Nat}
    (fatal : fault.severity = .fatal) (raised : RaisedLast es place (.raised fault name step)) :
    CallPath es place name [] (.raised fault name step)
  /-- An attempt at a step of the action fails by itself. -/
  | attempt {place : Place} {name : String} {index count : Nat} {fault : ActionFault}
    (mild : fault.severity = .recoverable)
    (raised : RaisedLast es (place ++ [.attempt index count]) (.raised fault name (some index))) :
    CallPath es place name [] (.raised fault name (some index))
  /-- The action that a step runs refuses its parameters. -/
  | unbound {place : Place} {name : String} {index count : Nat} {message : String} {a : Action}
    (raised : RaisedLast es (place ++ [.attempt index count])
      (.stepFailed (.raised (.validation message) a.fullName none) name index)) :
    CallPath es place name [⟨name, index, count⟩] (.raised (.validation message) a.fullName none)
  /-- The action that a step runs fails. -/
  | run {place : Place} {name : String} {index count : Nat} {a : Action} {frame : Frame}
    {path : List Hop} {e : ActionError}
    (entered : .noted ⟨.entered a frame, place ++ [.attempt index count]⟩ ∈ es)
    (rest : CallPath es (place ++ [.attempt index count]) a.fullName path e) :
    CallPath es place name (⟨name, index, count⟩ :: path) e

namespace CallPath

variable {es : List Event} {place : Place} {name : String} {path path' : List Hop}
  {e e' : ActionError}

/-- What is raised at the end of the way, and where. -/
theorem raises (h : CallPath es place name path e) : ∃ inner last,
    RaisedLast es (place ++ inner) last ∧ (inner = [] → path = [] ∧ last = e ∧ e.isFatal) := by
  induction h with
  | action fatal raised =>
    refine ⟨[], _, (List.append_nil _).symm ▸ raised, fun _ => ⟨rfl, rfl, ?_⟩⟩
    exact ActionError.isFatal_raised.2 fatal
  | attempt mild raised => exact ⟨_, _, raised, nofun⟩
  | unbound raised => exact ⟨_, _, raised, nofun⟩
  | run entered rest ih =>
    obtain ⟨inner, last, raised, -⟩ := ih
    rw [List.append_assoc] at raised
    exact ⟨_, last, raised, nofun⟩

/-- What is raised no deeper than the way leads from is raised there. -/
theorem of_raised (h : CallPath es place name path e) {outer : Place}
    (raised : RaisedLast es outer e') (shallow : outer.length ≤ place.length) :
    outer = place ∧ path = [] ∧ e' = e ∧ e.isFatal := by
  obtain ⟨inner, last, raised', own⟩ := h.raises
  obtain ⟨rfl, rfl⟩ := raised.unique raised'
  have hinner : inner = [] := by
    simpa using shallow
  obtain ⟨hpath, hlast, hfatal⟩ := own hinner
  exact ⟨by simp [hinner], hpath, hlast, hfatal⟩

/-- In events in which no two actions are entered in one place, there is only one way. -/
theorem unique
    (single : ∀ {place a b f g}, .noted ⟨.entered a f, place⟩ ∈ es →
      .noted ⟨.entered b g, place⟩ ∈ es → a = b)
    (h : CallPath es place name path e) (h' : CallPath es place name path' e') :
    path = path' ∧ e = e' := by
  induction h generalizing path' with
  | action fatal raised =>
    obtain ⟨-, rfl, rfl, -⟩ := h'.of_raised raised (Nat.le_refl _)
    exact ⟨rfl, rfl⟩
  | attempt mild raised =>
    cases h' with
    | action fatal raised' => simpa using (raised.unique raised').1
    | attempt mild' raised' =>
      obtain ⟨-, heq⟩ := raised.unique raised'
      exact ⟨rfl, heq⟩
    | unbound raised' => cases (raised.unique raised').2
    | run entered rest =>
      obtain ⟨-, -, rfl, hfatal⟩ := rest.of_raised raised (by simp)
      exact absurd hfatal (ActionError.not_isFatal_raised mild)
  | unbound raised =>
    cases h' with
    | action fatal raised' => simpa using (raised.unique raised').1
    | attempt mild raised' => cases (raised.unique raised').2
    | unbound raised' =>
      obtain ⟨hplace, heq⟩ := raised.unique raised'
      obtain ⟨hcause, -, -⟩ := ActionError.stepFailed.inj heq
      obtain ⟨-, hturn⟩ := List.append_inj' hplace rfl
      cases hturn
      exact ⟨rfl, hcause⟩
    | run entered rest =>
      obtain ⟨-, -, rfl, hfatal⟩ := rest.of_raised raised (by simp)
      cases hfatal
  | run entered rest ih =>
    cases h' with
    | action fatal raised' =>
      obtain ⟨inner, last, raised, -⟩ := rest.raises
      simpa using (raised.unique raised').1
    | attempt mild raised' =>
      obtain ⟨-, -, rfl, hfatal⟩ := rest.of_raised raised' (by simp)
      exact absurd hfatal (ActionError.not_isFatal_raised mild)
    | unbound raised' =>
      obtain ⟨-, -, rfl, hfatal⟩ := rest.of_raised raised' (by simp)
      cases hfatal
    | run entered' rest' =>
      obtain ⟨inner, last, raised, -⟩ := rest.raises
      obtain ⟨inner', last', raised', -⟩ := rest'.raises
      have hplace := (raised.unique raised').1
      simp only [List.append_assoc, List.singleton_append, List.append_cancel_left_eq] at hplace
      obtain ⟨hturn, -⟩ := List.cons.inj hplace
      cases hturn
      obtain rfl := single entered entered'
      obtain ⟨rfl, rfl⟩ := ih rest'
      exact ⟨rfl, rfl⟩

end CallPath

/-- The layers of a failure are those of the way by which it has come about. -/
def Traced (es : List Event) (place : Place) (name : String) (e : ActionError) : Prop :=
  ∃ path, CallPath es place name path e.innermost ∧
    e.layers = path.map Hop.layer ++ e.innermost.ownLayer

/-- What an attempt at a step fails with that runs in a place. -/
inductive Tried (es : List Event) (place : Place) (name : String) (index : Nat) :
    ActionError → Prop
  | own {fault : ActionFault} (mild : fault.severity = .recoverable)
    (raised : RaisedLast es place (.raised fault name (some index))) :
    Tried es place name index (.raised fault name (some index))
  | unbound {message : String} {a : Action}
    (raised : RaisedLast es place
      (.stepFailed (.raised (.validation message) a.fullName none) name index)) :
    Tried es place name index
      (.stepFailed (.raised (.validation message) a.fullName none) name index)
  | run {a : Action} {frame : Frame} {e : ActionError}
    (entered : .noted ⟨.entered a frame, place⟩ ∈ es) (traced : Traced es place a.fullName e) :
    Tried es place name index (.stepFailed e name index)

theorem Tried.of_run {es : List Event} {place : Place} {name : String} {index : Nat} {a : Action}
    {frame : Frame} {e : ActionError} (entered : .noted ⟨.entered a frame, place⟩ ∈ es)
    (traced : Traced es place a.fullName e) (stays : ¬ e.innermost.escapes) :
    Tried es place name index (e.failRun name index) := by
  have hlayer : e.failRun name index = .stepFailed e name index :=
    if_neg fun h => stays (ActionError.innermost_escapes h)
  rw [hlayer]
  exact .run entered traced

theorem Tried.traced {es : List Event} {place : Place} {name : String} {index count : Nat}
    {e : ActionError} (h : Tried es (place ++ [.attempt index count]) name index e) :
    Traced es place name (e.failStep name index) := by
  cases h with
  | @own fault mild raised =>
    have hmild : ¬ (ActionError.raised fault name (some index)).isFatal :=
      ActionError.not_isFatal_raised mild
    have hlayer : (ActionError.raised fault name (some index)).failStep name index =
        .stepFailed (.raised fault name (some index)) name index :=
      if_neg hmild
    have hown : (ActionError.raised fault name (some index)).ownLayer = [(name, index)] :=
      if_neg hmild
    rw [hlayer]
    exact ⟨[], .attempt mild raised, hown.symm⟩
  | @unbound message a raised =>
    have hlayer : (ActionError.stepFailed (.raised (.validation message) a.fullName none) name
        index).failStep name index =
          .stepFailed (.raised (.validation message) a.fullName none) name index := by
      simp [ActionError.failStep]
    rw [hlayer]
    exact ⟨[_], .unbound raised, rfl⟩
  | @run a frame e entered traced =>
    have hlayer : (ActionError.stepFailed e name index).failStep name index =
        .stepFailed e name index := by
      simp [ActionError.failStep]
    obtain ⟨path, hpath, hlayers⟩ := traced
    rw [hlayer]
    exact ⟨_, .run entered hpath, congrArg ((name, index) :: ·) hlayers⟩

/-- Events are those of a place among others, and nothing but records comes after them. -/
structure Embeds (place : Place) (es fs : List Event) : Prop where
  raised : ∀ {inner e}, RaisedLast es inner e → RaisedLast fs (place ++ inner) e
  noted : ∀ {news inner}, .noted ⟨news, inner⟩ ∈ es → .noted ⟨news, place ++ inner⟩ ∈ fs

namespace Embeds

variable {fs : List Event}

theorem after (before es : List Event) : Embeds [] es (before ++ es) where
  raised := by
    rintro inner e ⟨earlier, later, rfl, records⟩
    exact ⟨before ++ earlier, later, (List.append_assoc ..).symm, records⟩
  noted h := List.mem_append_right before h

theorem recorded (es : List Event) (records : ∀ x ∈ fs, x.IsRecord) : Embeds [] es (es ++ fs) where
  raised := by
    rintro inner e ⟨earlier, later, rfl, hlater⟩
    refine ⟨earlier, later ++ fs, List.append_assoc .., fun x hx => ?_⟩
    exact (List.mem_append.1 hx).elim (hlater x) (records x)
  noted h := List.mem_append_left fs h

theorem inside (turn : Turn) (es : List Event) :
    Embeds [turn] es (es.map (Event.inside turn)) where
  raised := by
    rintro inner e ⟨earlier, later, rfl, records⟩
    refine ⟨earlier.map (Event.inside turn), later.map (Event.inside turn), by simp; rfl, ?_⟩
    intro x hx
    obtain ⟨y, hy, rfl⟩ := List.mem_map.1 hx
    exact (records y hy).inside turn
  noted h := Event.noted_mem_inside_iff.2 ⟨_, rfl, h⟩

end Embeds

section

variable {es fs : List Event} {place inner : Place} {name : String} {e : ActionError}

theorem CallPath.embed {path : List Hop} (h : CallPath es inner name path e)
    (hes : Embeds place es fs) : CallPath fs (place ++ inner) name path e := by
  induction h with
  | action fatal raised => exact .action fatal (hes.raised raised)
  | attempt mild raised =>
    have hraised := hes.raised raised
    rw [← List.append_assoc] at hraised
    exact .attempt mild hraised
  | unbound raised =>
    have hraised := hes.raised raised
    rw [← List.append_assoc] at hraised
    exact .unbound hraised
  | run entered rest ih =>
    have hentered := hes.noted entered
    rw [← List.append_assoc] at hentered ih
    exact .run hentered ih

theorem Traced.embed (h : Traced es inner name e) (hes : Embeds place es fs) :
    Traced fs (place ++ inner) name e := by
  obtain ⟨path, hpath, hlayers⟩ := h
  exact ⟨path, hpath.embed hes, hlayers⟩

theorem Tried.embed {index : Nat} (h : Tried es inner name index e) (hes : Embeds place es fs) :
    Tried fs (place ++ inner) name index e := by
  cases h with
  | own mild raised => exact .own mild (hes.raised raised)
  | unbound raised => exact .unbound (hes.raised raised)
  | run entered traced => exact .run (hes.noted entered) (traced.embed hes)

end

/-- No step of a fallback list does anything. -/
def FallbackFree (es : List Event) : Prop :=
  ∀ n ∈ notesOf es, ∀ turn ∈ n.place, turn.isFallback = false

instance (es : List Event) : Decidable (FallbackFree es) :=
  inferInstanceAs (Decidable (∀ n ∈ notesOf es, ∀ turn ∈ n.place, turn.isFallback = false))

namespace FallbackFree

variable {es fs : List Event}

theorem of_append (h : FallbackFree (es ++ fs)) : FallbackFree es ∧ FallbackFree fs := by
  simpa [FallbackFree, or_imp, forall_and] using h

theorem of_here {news : News} (h : FallbackFree (here news :: es)) : FallbackFree es :=
  fun n hn => h n (List.mem_cons_of_mem _ hn)

theorem of_attempt {index count : Nat}
    (h : FallbackFree (es.map (Event.inside (.attempt index count)))) : FallbackFree es := by
  intro n hn turn ht
  apply h (n.inside (.attempt index count))
  · rw [notesOf_inside]
    exact List.mem_map_of_mem hn
  · exact List.mem_cons_of_mem _ ht

theorem of_fallback {index : Nat} (h : FallbackFree (es.map (Event.inside (.fallback index)))) :
    notesOf es = [] := by
  rw [List.eq_nil_iff_forall_not_mem]
  intro n hn
  have hturn := h (n.inside (.fallback index))
    (by rw [notesOf_inside]; exact List.mem_map_of_mem hn) _ List.mem_cons_self
  cases hturn

end FallbackFree

theorem Course.step_noted {settings : Settings} {levels index : Nat} {frame : Frame} {step : Step}
    {progress : Progress} {es : List Event} {r : Option (Outcome (Progress × Option Json))}
    (h : Course settings (.step levels frame index step progress) es r) : notesOf es ≠ [] := by
  cases h <;> simp

theorem Course.steps_noted {settings : Settings} {levels index : Nat} {frame : Frame}
    {steps : List Step} {progress : Progress} {last : Json} {es : List Event} {e : ActionError}
    (h : Course settings (.steps levels frame index steps progress last) es (some (.error e))) :
    notesOf es ≠ [] := by
  cases h with
  | stepFails head => exact head.step_noted
  | stepDone head tail => simp [head.step_noted]

/-- How the events of a part of a run explain what it fails with. -/
def Part.Explains : Part → List Event → ActionError → Prop
  | .action _ frame a, es, e => .noted ⟨.entered a frame, []⟩ ∈ es ∧ Traced es [] frame.action e
  | .steps _ frame .., es, e | .step _ frame .., es, e => Traced es [] frame.action e
  | .attempts _ frame index .., es, e =>
    ∃ count, Tried es [.attempt index count] frame.action index e
  | .ending _ frame index _ _ _ ended, es, e => (∀ x ∈ es, x.IsRecord) ∧
    ∃ cause, ended.result = .error cause ∧ e = cause.failStep frame.action index
  | .bounded _ frame index .., es, e | .dispatch _ frame index .., es, e =>
    Tried es [] frame.action index e

theorem Interrupt.fault_escapes (cause : Interrupt) : cause.fault.escapes := by
  cases cause <;> rfl

/-- A failure that does not escape from nested actions is explained by the events. -/
theorem Course.explains {settings : Settings} {part : Part} {es : List Event}
    {r : Option part.Result} (h : Course settings part es r) (free : FallbackFree es)
    {e : ActionError} (hf : part.FailsWith r e) (stays : ¬ e.innermost.escapes) :
    part.Explains es e := by
  induction h generalizing e with
  | actionCut | actionDone | noSteps | stepCut | skipped | succeeded | ignored | rescueCut
    | rescued => cases hf
  | attemptsCut | attemptCut | pauseCut => obtain ⟨_, ⟨⟩, _⟩ := hf
  | actionFails steps ih =>
    cases hf
    exact ⟨List.mem_cons_self, (ih free.of_here rfl stays).embed (.after [_] _)⟩
  | actionRefused steps refused ih =>
    cases hf
    obtain ⟨fault, rfl, fatal, -⟩ := Action.conclude_error refused
    refine ⟨List.mem_cons_self, [], .action fatal (.raise (here _ :: _) _), ?_⟩
    simp [ActionError.layers, ActionError.innermost, ActionError.ownLayer, Frame.error,
      ActionError.step?]
  | stepFails head ih =>
    cases hf
    exact ih free rfl stays
  | stepDone head tail ihHead ihTail =>
    exact (ihTail free.of_append.2 hf stays).embed (.after _ _)
  | @halted _ _ _ _ _ _ cause raised =>
    cases hf
    subst raised
    exact absurd cause.fault_escapes stays
  | overLimit full raised =>
    cases hf
    subst raised
    exact absurd rfl stays
  | broken room breaks raised =>
    cases hf
    subst raised
    refine ⟨[], .action rfl ⟨[_], [_], rfl, fun x hx => ?_⟩, rfl⟩
    exact ⟨_, _, List.mem_singleton.1 hx⟩
  | attempted room runs tries ending ihTries ihEnding =>
    have hfree := free.of_here.of_here.of_append
    obtain ⟨records, cause, hcause, rfl⟩ := ihEnding hfree.2 hf stays
    rw [ActionError.innermost_failStep] at stays
    obtain ⟨count, htried⟩ := ihTries hfree.1 ⟨_, rfl, hcause⟩ stays
    have htraced : Traced _ [] _ (cause.failStep _ _) := htried.traced
    exact (htraced.embed (.recorded _ records)).embed (.after [_, _] _)
  | aborted result final =>
    cases hf
    exact ⟨fun x hx => ⟨_, _, List.mem_singleton.1 hx⟩, _, result, rfl⟩
  | unrescued result mild policy rescue ih =>
    exact absurd free.of_append.1.of_fallback rescue.steps_noted
  | attemptLast once last ih =>
    obtain ⟨_, ⟨⟩, hf⟩ := hf
    have htried := ih free.of_here.of_attempt (congrArg some hf) stays
    exact ⟨_, (htried.embed (.inside _ _)).embed (.after [_] _)⟩
  | @pauseHalted _ _ _ _ _ _ _ _ _ _ cause once mild raised ih =>
    obtain ⟨_, ⟨⟩, hf⟩ := hf
    cases hf
    subst raised
    exact absurd cause.fault_escapes stays
  | again once mild others ihOnce ihOthers =>
    obtain ⟨count, htried⟩ := ihOthers free.of_here.of_append.2 hf stays
    exact ⟨count, (htried.embed (.after _ _)).embed (.after [_] _)⟩
  | inTime work ih => exact ih free hf stays
  | timedOut work bound raised ih =>
    cases hf
    subst raised
    exact .own rfl (.raise _ _)
  | refused task raised =>
    cases hf
    subst raised
    exact .own rfl (.raise [] _)
  | tooDeep task raised =>
    cases hf
    subst raised
    exact absurd rfl stays
  | @noTarget levels _ _ _ _ _ _ _ task target =>
    cases hf
    cases (Settings.refuses_iff levels).2 target with
    | lookup missing => exact absurd rfl stays
    | binding found unbound => exact .unbound (.raise [] _)
  | @ran levels frame index step args name params a bound es r task target body ih =>
    match r, hf with
    | some (.error fault), hf =>
      cases hf
      have hstays : ¬ fault.innermost.escapes := by
        simpa using stays
      obtain ⟨hentered, htraced⟩ := ih free rfl hstays
      exact Tried.of_run hentered htraced hstays
  | @onPage levels frame index step args task calls r asked few =>
    cases r <;> cases hf
  | @pageFails _ _ _ _ _ _ fault _ _ asked few raised =>
    cases hf
    subst raised
    have mild : (ActionFault.ofPage fault).severity = .recoverable := by
      cases fault <;> rfl
    exact .own mild (.raise _ _)

variable {σ : Type}

/--
The layers of the failure of a run that does not escape from nested actions, where no fallback list
is at work. They are the `run` steps by which the action has been reached that raised the failure
inside of them, in this order, and after them the step that raised it, if that step can handle it.
The events tell of no other way and of no other failure. If the parameters of the run are refused,
nothing happens and there are no layers.
-/
theorem execute_unwinds (settings : Settings) (page : Page σ) (state : σ)
    (cancellation : Cancellation) (a : Action) (params env : Json) {e : ActionError} :
    let es := eventsOf (history settings page state cancellation a params env)
    let report := (execute settings page state cancellation a params env).1
    FallbackFree es → report.result = .error e → ¬ e.innermost.escapes →
      (∃ path, CallPath es [] a.fullName path e.innermost ∧
        e.layers = path.map Hop.layer ++ e.innermost.ownLayer ∧
        ∀ other e', CallPath es [] a.fullName other e' → other = path ∧ e' = e.innermost) ∨
      (es = [] ∧ ∃ message, e = .raised (.validation message) a.fullName none) := by
  intro es report free hresult stays
  have hgoes : Goes settings a params env es report :=
    execute_goes settings page state cancellation a params env
  cases hgoes with
  | unbound root events reported =>
    have hfailed : report.result = _ := congrArg Report.result reported
    cases hfailed.symm.trans hresult
    exact .inr ⟨events, Frame.root_error root⟩
  | ended root course result trace =>
    obtain rfl := result.symm.trans hresult
    obtain ⟨-, path, hpath, hlayers⟩ := course.explains free rfl stays
    rw [Frame.root_action root] at hpath
    exact .inl ⟨path, hpath, hlayers, fun _ _ h => h.unique course.entered_unique hpath⟩
  | @interrupted frame cause _ _ root course stops ledger result trace =>
    obtain ⟨step, hstep⟩ := (Ledger.after {} es).interrupted_error cause.fault frame
    rw [ledger] at hstep
    cases result.symm.trans hresult
    subst hstep
    exact absurd cause.fault_escapes stays

def descend : Action where
  name := "descend"
  params := [{ name := "again" }, { name := "then" }]
  steps := [
    { kind := .run
      args := [("action", .string "descend"), ("params", .object
        [("again", .string "$\x7bparams.then\x7d"), ("then", .string "")])]
      condition := some "params.again"
      retries := 1 },
    { kind := .visit, args := [("url", .string "/a")], retries := 1 }]

/-- Parameters with which an action runs itself, and runs itself again there. -/
def twice : Json :=
  .object [("again", .string "yes"), ("then", .string "yes")]

def flaky : Script where
  failures := [("navigate:/a", (List.range 8).map fun n => some (.failed (natText (n + 1))))]

def lastVisit : ActionError :=
  .raised (.driver "8") descend.fullName (some 1)

theorem descend_fails :
    (execute { registry := .ofActions [descend] } Script.page flaky {} descend twice
      .null).1.result = .error (.stepFailed (.stepFailed (.stepFailed lastVisit "descend" 1)
        "descend" 0) "descend" 0) := by
  apply Outcome.eq_error_of_map (f := fun _ => ())
  decide +kernel

/-- Every attempt at each of the `run` steps is made, and the layers are of the last ones only. -/
theorem execute_unwinds_descend :
    let es := eventsOf (history { registry := .ofActions [descend] } Script.page flaky {} descend
      twice .null)
    FallbackFree es ∧ ¬ lastVisit.escapes ∧ ∃ path, CallPath es [] descend.fullName path lastVisit ∧
      path.map Hop.layer = [("descend", 0), ("descend", 0)] := by
  intro es
  have free : FallbackFree es := by
    decide +kernel
  have stays : ¬ lastVisit.escapes :=
    Bool.false_ne_true
  obtain ⟨path, hpath, hlayers, -⟩ | ⟨-, message, ⟨⟩⟩ := execute_unwinds
    { registry := .ofActions [descend] } Script.page flaky {} descend twice .null free
    descend_fails stays
  refine ⟨free, stays, path, hpath, ?_⟩
  exact (List.append_cancel_right hlayers).symm

end PageFlow
