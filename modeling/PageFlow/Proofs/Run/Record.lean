import PageFlow.Proofs.Routine.History
import PageFlow.Proofs.Run.Place

namespace PageFlow

open Event (here)

@[simp] def News.start? : News → Option (Step × Nat)
  | begun index step _ => some (step, index)
  | _ => none

@[simp] def News.entry? : News → Option Entry
  | recorded entry => some entry
  | _ => none

@[simp] theorem Event.entry?_here (news : News) : Event.entry? (here news) = news.entry? := by
  cases news <;> rfl

@[simp] def News.count? (index : Nat) : News → Option Nat
  | attempted i count => if i = index then some count else none
  | _ => none

/-- What the news from a place tell, as far as `f` picks it out. -/
def told {α : Type} (f : News → Option α) (place : Place) (es : List Event) : List α :=
  (newsAt place es).filterMap f

section

variable {α : Type} (f : News → Option α) (place : Place) (turn : Turn) (es fs : List Event)

@[simp] theorem told_nil : told f place [] = [] := by
  simp [told]

@[simp] theorem told_append : told f place (es ++ fs) = told f place es ++ told f place fs := by
  simp [told]

@[simp] theorem told_here (news : News) :
    told f [] (here news :: es) = (f news).toList ++ told f [] es := by
  cases h : f news <;> simp [told, h]

@[simp] theorem told_turn_here (news : News) :
    told f (turn :: place) (here news :: es) = told f (turn :: place) es :=
  rfl

@[simp] theorem told_sent (calls : List Call) : told f place (calls.map Event.sent) = [] := by
  simp [told]

@[simp] theorem told_inside :
    told f (turn :: place) (es.map (Event.inside turn)) = told f place es := by
  simp [told]

@[simp] theorem told_inside_nil : told f [] (es.map (Event.inside turn)) = [] := by
  simp [told]

theorem told_other {turn other : Turn} (h : other ≠ turn) :
    told f (turn :: place) (es.map (Event.inside other)) = [] := by
  rw [told, newsAt_other place es h, List.filterMap_nil]

end

theorem told_congr {α : Type} {f : News → Option α} {place place' : Place} {es fs : List Event}
    (h : newsAt place es = newsAt place' fs) : told f place es = told f place' fs :=
  congrArg _ h

abbrev startsAt : Place → List Event → List (Step × Nat) :=
  told News.start?

abbrev entriesAt : Place → List Event → List Entry :=
  told News.entry?

/-- The numbers of the attempts at a step that are begun in a place. -/
abbrev attemptsAt (index : Nat) : Place → List Event → List Nat :=
  told (News.count? index)

theorem entriesAt_nil (es : List Event) : entriesAt [] es = entriesOf es := by
  induction es with
  | nil => rfl
  | cons e es ih =>
    rw [entriesOf_cons, ← ih]
    cases e with
    | sent c => rfl
    | noted n =>
      obtain ⟨news, place⟩ := n
      cases place with
      | nil => cases news <;> rfl
      | cons turn place => cases news <;> rfl

theorem Silent.attemptsAt {index : Nat} {es : List Event} (h : Silent index es) :
    attemptsAt index [] es = [] := by
  change (newsAt [] es).filterMap (News.count? index) = []
  rw [List.filterMap_eq_nil_iff]
  intro news hnews
  obtain ⟨n, hn, hown⟩ := List.mem_filterMap.1 hnews
  have hs := h n (mem_notesOf.1 hn)
  obtain ⟨news', place⟩ := n
  cases place with
  | cons turn place => cases hown
  | nil =>
    cases hown
    cases news with
    | attempted i count => exact if_neg fun hi => hs (congrArg some hi)
    | _ => rfl

theorem Silent.told {α : Type} {f : News → Option α} {turn : Turn} {es : List Event}
    (h : Silent turn.index es) (place : Place) : told f (turn :: place) es = [] := by
  rw [PageFlow.told, newsAt_of_under place h.under, List.filterMap_nil]

/-- A failure at a step does not keep the steps after it from running. -/
def Step.Tolerates (step : Step) (entry : Entry) : Prop :=
  entry.outcome.succeeds ∨ step.onError = .ignore

/--
A record agrees with what happened at its step: it counts the attempts, and holds the records of the
last of them and those of the fallback list.
-/
structure Entry.Accounts (entry : Entry) (place : Place) (es : List Event) : Prop where
  attempts : attemptsAt entry.index place es = List.range' 1 entry.attempts
  nested : entry.nested = entriesAt (place ++ [.attempt entry.index entry.attempts]) es ++
    entriesAt (place ++ [.fallback entry.index]) es

namespace Entry.Accounts

variable {entry : Entry} {es fs : List Event}

theorem append_right (h : entry.Accounts [] es) (hs : Silent entry.index fs) :
    entry.Accounts [] (es ++ fs) where
  attempts := by
    simpa [hs.attemptsAt] using h.attempts
  nested := by
    have hattempt := @Silent.told _ News.entry? (.attempt entry.index entry.attempts) fs hs []
    have hfallback := @Silent.told _ News.entry? (.fallback entry.index) fs hs []
    simpa [hattempt, hfallback] using h.nested

theorem append_left (h : entry.Accounts [] fs) (hs : Silent entry.index es) :
    entry.Accounts [] (es ++ fs) where
  attempts := by
    simpa [hs.attemptsAt] using h.attempts
  nested := by
    have hattempt := @Silent.told _ News.entry? (.attempt entry.index entry.attempts) es hs []
    have hfallback := @Silent.told _ News.entry? (.fallback entry.index) es hs []
    simpa [hattempt, hfallback] using h.nested

end Entry.Accounts

/-- How a part of a run ends. -/
inductive Fate where
  | cut
  | failed
  | done
deriving DecidableEq

@[simp] def fate {β : Type} : Option (Outcome β) → Fate
  | none => .cut
  | some (.error _) => .failed
  | some (.ok _) => .done

/-- What steps leave recorded if they come to an end. -/
@[simp] def after? {β : Type} : Option (Outcome (Progress × β)) → Option Progress
  | some (.ok (after, _)) => some after
  | _ => none

/-- A step that is at work when the events end. -/
structure InFlight.Shows (f : InFlight) (step : Step) (es : List Event) : Prop where
  kind : f.kind = step.kind
  attempts : attemptsAt f.index [] es = List.range' 1 f.attempts
  few : f.attempts ≤ step.retries + 1
  ledger : ∀ l : Ledger, (l.after es).inFlight = some f

theorem InFlight.Shows.append {f : InFlight} {step : Step} {es fs : List Event}
    (h : f.Shows step fs) (hs : Silent f.index es) : f.Shows step (es ++ fs) where
  kind := h.kind
  attempts := by simpa [hs.attemptsAt] using h.attempts
  few := h.few
  ledger l := by rw [Ledger.after_append, h.ledger]

inductive Step.Tells (step : Step) (index : Nat) (es : List Event) : Fate → Prop
  | refused (starts : startsAt [] es = []) (entries : entriesAt [] es = []) :
    Tells step index es .failed
  | recorded {entry : Entry} {fate : Fate} (starts : startsAt [] es = [(step, index)])
    (entries : entriesAt [] es = [entry]) (at_index : entry.index = index)
    (kind : entry.kind = step.kind) (few : entry.attempts ≤ step.retries + 1)
    (accounts : entry.Accounts [] es) (ends : fate ≠ .cut)
    (tolerates : fate = .done → step.Tolerates entry) : Tells step index es fate
  | cut {f : InFlight} (starts : startsAt [] es = [(step, index)]) (entries : entriesAt [] es = [])
    (at_index : f.index = index) (shows : f.Shows step es) : Tells step index es .cut

/-- What is told of a list of steps, the first of which has the given index. -/
structure Walks (steps : List Step) (index : Nat) (es : List Event) (fate : Fate) : Prop where
  entries : ∀ j entry, (entriesAt [] es)[j]? = some entry → ∃ step, steps[j]? = some step ∧
    entry.index = index + j ∧ entry.kind = step.kind ∧ entry.attempts ≤ step.retries + 1 ∧
    (step.Tolerates entry ∨ j + 1 = (entriesAt [] es).length ∧ fate = .failed)
  accounts : ∀ entry ∈ entriesAt [] es, entry.Accounts [] es
  starts : startsAt [] es =
    (steps.zipIdx index).take ((entriesAt [] es).length + if fate = .cut then 1 else 0)
  all : fate = .done → (entriesAt [] es).length = steps.length
  inFlight : fate = .cut → ∃ (f : InFlight) (step : Step),
    steps[(entriesAt [] es).length]? = some step ∧ f.index = index + (entriesAt [] es).length ∧
      f.Shows step es

namespace Walks

variable {step : Step} {rest : List Step} {index : Nat} {es fs : List Event} {fate : Fate}

theorem nil : Walks [] index [] .done where
  entries := by simp
  accounts := by simp
  starts := by simp
  all := by simp
  inFlight := by simp

theorem of_step (h : step.Tells index es fate) (hf : fate ≠ .done) :
    Walks (step :: rest) index es fate := by
  cases h with
  | refused starts entries =>
    exact {
      entries := by simp [entries]
      accounts := by simp [entries]
      starts := by simp [entries, starts]
      all := by simp
      inFlight := by simp }
  | @recorded entry _ starts entries at_index kind few accounts ends tolerates =>
    have hfailed : fate = .failed := by
      cases fate <;> simp_all
    exact {
      entries := by
        intro j e he
        rw [entries] at he
        obtain ⟨rfl, rfl⟩ : j = 0 ∧ entry = e := by
          cases j <;> simp_all
        exact ⟨step, rfl, at_index, kind, few, .inr ⟨by simp [entries], hfailed⟩⟩
      accounts := by simpa [entries] using accounts
      starts := by simp [entries, starts, ends]
      all := fun h => absurd h hf
      inFlight := fun h => absurd h ends }
  | @cut f starts entries at_index shows =>
    exact {
      entries := by simp [entries]
      accounts := by simp [entries]
      starts := by simp [entries, starts]
      all := by simp
      inFlight := fun _ => ⟨f, step, by simp [entries], by simp [entries, at_index], shows⟩ }

theorem cons (h : step.Tells index es .done) (ht : Walks rest (index + 1) fs fate)
    (hes : ∀ i, i ≠ index → Silent i es) (hfs : Silent index fs) :
    Walks (step :: rest) index (es ++ fs) fate := by
  cases h with
  | @recorded entry _ starts entries at_index kind few accounts ends tolerates =>
  have hentries : entriesAt [] (es ++ fs) = entry :: entriesAt [] fs := by
    simp [entries]
  exact {
    entries := by
      intro j e he
      rw [hentries] at he ⊢
      cases j with
      | zero =>
        cases he
        exact ⟨step, rfl, at_index, kind, few, .inl (tolerates rfl)⟩
      | succ j =>
        obtain ⟨s, hs, hi, hk, hf, ho⟩ := ht.entries j e he
        refine ⟨s, hs, by omega, hk, hf, ho.imp_right fun ⟨hj, hfate⟩ => ⟨?_, hfate⟩⟩
        simp [hj]
    accounts := by
      intro e he
      rw [hentries] at he
      rcases List.mem_cons.1 he with rfl | he
      · exact accounts.append_right (at_index ▸ hfs)
      · obtain ⟨j, hj⟩ := List.mem_iff_getElem?.1 he
        obtain ⟨s, -, hi, -⟩ := ht.entries j e hj
        exact (ht.accounts e he).append_left (hes e.index (by omega))
    starts := by
      have hstarts : startsAt [] (es ++ fs) = (step, index) :: startsAt [] fs := by
        simp [starts]
      rw [hstarts, hentries, ht.starts, List.length_cons, Nat.add_right_comm, List.zipIdx_cons,
        List.take_succ_cons]
    all := by
      intro hfate
      simp [hentries, ht.all hfate]
    inFlight := by
      intro hfate
      obtain ⟨f, s, hs, hi, hshows⟩ := ht.inFlight hfate
      refine ⟨f, s, by simpa [hentries] using hs, ?_, hshows.append (hes f.index (by omega))⟩
      rw [hentries, hi, List.length_cons]
      omega }

theorem raised (h : Walks rest index es fate) (e : ActionError) :
    Walks rest index (es ++ [here (.raised e)]) fate where
  entries := by simpa using h.entries
  accounts := by
    intro entry he
    have haccounts := h.accounts entry (by simpa using he)
    exact haccounts.append_right (by simp [Silent, Note.index?, News.index?])
  starts := by simpa using h.starts
  all := by simpa using h.all
  inFlight := by
    intro hfate
    obtain ⟨f, s, hs, hi, hshows⟩ := h.inFlight hfate
    refine ⟨f, s, by simpa using hs, by simpa using hi, ?_⟩
    exact ⟨hshows.kind, by simpa using hshows.attempts, hshows.few, fun l => by
      rw [Ledger.after_append]
      exact hshows.ledger l⟩

theorem entered (h : Walks rest index es fate) (a : Action) (frame : Frame) :
    Walks rest index (here (.entered a frame) :: es) fate :=
  ⟨h.entries, fun e he => ⟨(h.accounts e he).attempts, (h.accounts e he).nested⟩, h.starts, h.all,
    fun hfate => by
      obtain ⟨f, s, hs, hi, hshows⟩ := h.inFlight hfate
      exact ⟨f, s, hs, hi, hshows.kind, hshows.attempts, hshows.few, hshows.ledger⟩⟩

theorem refused (h : Walks rest index es .done) : Walks rest index es .failed where
  entries j entry he := by
    obtain ⟨s, hs, hi, hk, hf, ho⟩ := h.entries j entry he
    exact ⟨s, hs, hi, hk, hf, .inl (ho.resolve_right fun hfate => by cases hfate.2)⟩
  accounts := h.accounts
  starts := h.starts
  all := by simp
  inFlight := by simp

end Walks

@[simp] theorem Ledger.after_inside (l : Ledger) (turn : Turn) (es : List Event) :
    l.after (es.map (Event.inside turn)) = l := by
  induction es with
  | nil => rfl
  | cons e es ih =>
    cases e with
    | sent c => exact ih
    | noted n =>
      obtain ⟨news, place⟩ := n
      cases news <;> exact ih

/-- What is told of `many` attempts at a step, the first of which has the number `count`. -/
structure Tries (index count many : Nat) (es : List Event) (r : Option Attempted) : Prop where
  begun : 0 < many
  starts : startsAt [] es = []
  entries : entriesAt [] es = []
  attempts : attemptsAt index [] es = List.range' count many
  ended : ∀ ended, r = some ended → ended.attempts + 1 = count + many ∧
    ended.nested = entriesAt [.attempt index ended.attempts] es
  ledger : ∀ (l : Ledger) (f : InFlight), l.inFlight = some f →
    (l.after es).inFlight = some { f with attempts := count + many - 1 }

inductive Step.Closes (step : Step) (index : Nat) (ended : Attempted) (es : List Event) :
    Fate → Prop
  | recorded {entry : Entry} {fate : Fate} (starts : startsAt [] es = [])
    (entries : entriesAt [] es = [entry]) (silent : attemptsAt index [] es = [])
    (at_index : entry.index = index) (kind : entry.kind = step.kind)
    (attempts : entry.attempts = ended.attempts)
    (nested : entry.nested = ended.nested ++ entriesAt [.fallback index] es) (ends : fate ≠ .cut)
    (tolerates : fate = .done → step.Tolerates entry) : Closes step index ended es fate
  | cut (starts : startsAt [] es = []) (entries : entriesAt [] es = [])
    (silent : attemptsAt index [] es = []) (ledger : ∀ l : Ledger, l.after es = l) :
    Closes step index ended es .cut

namespace Tries

variable {index count many : Nat} {es fs : List Event} {r : Option Attempted}

theorem one (hr : ∀ ended, r = some ended → ended.attempts = count ∧ ended.nested = entriesOf es) :
    Tries index count 1
      (here (.attempted index count) :: es.map (Event.inside (.attempt index count))) r where
  begun := Nat.one_pos
  starts := by simp
  entries := by simp
  attempts := by simp
  ended ended h := by
    obtain ⟨hcount, hnested⟩ := hr ended h
    exact ⟨congrArg (· + 1) hcount, by simp [hcount, hnested, entriesAt_nil]⟩
  ledger l f hf := by
    simp [Ledger.note, hf]

theorem raised (h : Tries index count many es r) (e : ActionError) :
    Tries index count many (es ++ [here (.raised e)]) r where
  begun := h.begun
  starts := by simpa using h.starts
  entries := by simpa using h.entries
  attempts := by simpa using h.attempts
  ended := by simpa using h.ended
  ledger l f hf := by
    rw [Ledger.after_append]
    exact h.ledger l f hf

theorem again (h : Tries index (count + 1) many fs r) :
    Tries index count (many + 1) (here (.attempted index count) ::
      (es.map (Event.inside (.attempt index count)) ++ fs)) r where
  begun := Nat.succ_pos many
  starts := by simpa using h.starts
  entries := by simpa using h.entries
  attempts := by simp [h.attempts, List.range'_succ]
  ended ended hr := by
    obtain ⟨hcount, hnested⟩ := h.ended ended hr
    have hmany := h.begun
    have hother : Turn.attempt index count ≠ .attempt index ended.attempts := by
      intro heq
      cases heq
      omega
    refine ⟨by omega, ?_⟩
    simp [told_other, hother, hnested]
  ledger l f hf := by
    rw [Ledger.after_noted, Ledger.after_append, Ledger.after_inside]
    have hnote := h.ledger (l.note ⟨.attempted index count, []⟩) { f with attempts := count }
      (by simp [Ledger.note, hf])
    rw [hnote]
    have hmany := h.begun
    simp only [Option.some.injEq, InFlight.mk.injEq, true_and]
    omega

end Tries

theorem Step.Closes.tells {step : Step} {index many : Nat} {progress : Progress} {ended : Attempted}
    {es fs : List Event} {fate : Fate} (hc : step.Closes index ended fs fate)
    (ht : Tries index 1 many es (some ended)) (few : many ≤ step.retries + 1)
    (hes : entriesAt [.fallback index] es = [])
    (hfs : entriesAt [.attempt index ended.attempts] fs = []) :
    step.Tells index
      (here (.begun index step progress) :: here (.dispatched index step.kind) :: (es ++ fs))
      fate := by
  obtain ⟨hcount, hnested⟩ := ht.ended ended rfl
  have hmany : ended.attempts = many := by omega
  cases hc with
  | @recorded entry _ starts entries silent at_index kind attempts nested ends tolerates =>
    have accounts : entry.Accounts []
        (here (.begun index step progress) :: here (.dispatched index step.kind) :: (es ++ fs)) :=
      { attempts := by simp [at_index, attempts, silent, ht.attempts, hmany]
        nested := by simp [at_index, attempts, nested, hnested, hes, hfs] }
    exact .recorded (by simp [starts, ht.starts]) (by simp [entries, ht.entries]) at_index kind
      (by omega) accounts ends tolerates
  | cut starts entries silent ledger =>
    have shows : InFlight.Shows ⟨index, step.kind, many⟩ step
        (here (.begun index step progress) :: here (.dispatched index step.kind) :: (es ++ fs)) :=
      { kind := rfl
        attempts := by simp [silent, ht.attempts]
        few := few
        ledger := fun l => by
          rw [Ledger.after_noted, Ledger.after_noted, Ledger.after_append, ledger]
          simpa using ht.ledger _ ⟨index, step.kind, 0⟩ rfl }
    exact .cut (by simp [starts, ht.starts]) (by simp [entries, ht.entries]) rfl shows

theorem Tries.tells {step : Step} {index many : Nat} {progress : Progress} {es : List Event}
    (ht : Tries index 1 many es none) (few : many ≤ step.retries + 1) :
    step.Tells index
      (here (.begun index step progress) :: here (.dispatched index step.kind) :: es) .cut := by
  have shows : InFlight.Shows ⟨index, step.kind, many⟩ step
      (here (.begun index step progress) :: here (.dispatched index step.kind) :: es) :=
    { kind := rfl
      attempts := by simp [ht.attempts]
      few := few
      ledger := fun l => by
        rw [Ledger.after_noted, Ledger.after_noted]
        simpa using ht.ledger _ ⟨index, step.kind, 0⟩ rfl }
  exact .cut (by simp [ht.starts]) (by simp [ht.entries]) rfl shows

theorem Step.tells_unattempted {step : Step} {index : Nat} {es : List Event} {fate : Fate}
    {outcome : StepOutcome} (starts : startsAt [] es = [(step, index)])
    (entries : entriesAt [] es = [step.unattempted index outcome])
    (silent : attemptsAt index [] es = [])
    (turns : ∀ turn, newsAt [turn] es = []) (ends : fate ≠ .cut)
    (tolerates : fate = .done → outcome.succeeds) : step.Tells index es fate := by
  have accounts : (step.unattempted index outcome).Accounts [] es :=
    { attempts := silent
      nested := by simp [told, turns, Step.unattempted] }
  exact .recorded starts entries rfl rfl (Nat.zero_le _) accounts ends fun h => .inl (tolerates h)

theorem Step.closes_entry {step : Step} {settings : Settings} {index : Nat} {args : Table Json}
    {ended : Attempted} {fate : Fate} {outcome : StepOutcome} (es : List Event) (ends : fate ≠ .cut)
    (tolerates : fate = .done → outcome.succeeds ∨ step.onError = .ignore) :
    step.Closes index ended (es.map (Event.inside (.fallback index)) ++
      [here (.recorded (step.entry settings index args ended outcome (entriesOf es)))]) fate :=
  have entries : entriesAt [] (es.map (Event.inside (.fallback index)) ++
      [here (.recorded (step.entry settings index args ended outcome (entriesOf es)))]) =
      [step.entry settings index args ended outcome (entriesOf es)] := by
    simp
  .recorded (by simp) entries (by simp) rfl rfl rfl (by simp [entriesAt_nil, Step.entry]) ends
    tolerates

def Part.Tells : (part : Part) → List Event → Option part.Result → Prop
  | action _ frame a, es, r => .entered a frame ∈ newsAt [] es ∧ Walks a.steps 0 es (fate r)
  | steps _ _ index list _ _, es, r => Walks list index es (fate r)
  | step _ _ index s _, es, r => s.Tells index es (fate r)
  | attempts _ _ index _ _ left count, es, r =>
    ∃ many, many ≤ left + 1 ∧ Tries index count many es r
  | ending _ _ index s _ _ ended, es, r => s.Closes index ended es (fate r)
  | bounded _ _ _ s _, es, _ | dispatch _ _ _ s _, es, _ =>
    startsAt [] es = [] ∧ entriesAt [] es = [] ∨
      ∃ (a : Action) (frame : Frame) (fate : Fate), .entered a frame ∈ newsAt [] es ∧
        s.kind = .run ∧ Walks a.steps 0 es fate

theorem Task.ofArgs_run {args : Table Json} {kind : StepKind} {selectors : Table Value}
    {timeout : Nat} {name : String} {params : Json}
    (h : Task.ofArgs args kind selectors timeout = .ok (.run name params)) : kind = .run := by
  rw [Task.ofArgs] at h
  split at h
  · next task _ => cases task <;> cases h
  · next hnone =>
    unfold PageTask.ofArgs? at hnone
    cases kind <;> simp at hnone ⊢

theorem Course.tells {settings : Settings} {part : Part} {es : List Event}
    {r : Option part.Result} (h : Course settings part es r) : part.Tells es r := by
  induction h with
  | actionCut steps ih => exact ⟨List.mem_cons_self, ih.entered _ _⟩
  | actionFails steps ih => exact ⟨List.mem_cons_self, ih.entered _ _⟩
  | actionRefused steps refused ih =>
    exact ⟨List.mem_cons_self, (ih.refused.raised _).entered _ _⟩
  | actionDone steps concluded ih => exact ⟨List.mem_cons_self, ih.entered _ _⟩
  | noSteps => exact Walks.nil
  | stepCut head ih => exact Walks.of_step ih (by simp)
  | stepFails head ih => exact Walks.of_step ih (by simp)
  | stepDone head tail ihHead ihTail =>
    exact Walks.cons ihHead ihTail (fun i hi => head.step_silent hi)
      (tail.steps_silent (Nat.lt_succ_self _))
  | halted halt => exact Step.Tells.refused rfl rfl
  | overLimit full raised => exact Step.Tells.refused rfl rfl
  | skipped room skips =>
    exact Step.tells_unattempted rfl rfl rfl (fun _ => rfl) (by simp) fun _ => rfl
  | broken room breaks raised =>
    exact Step.tells_unattempted rfl rfl rfl (fun _ => rfl) (by simp) (by simp)
  | attemptsCut room runs tries ih =>
    obtain ⟨many, few, ht⟩ := ih
    exact ht.tells (Nat.le_trans few (Nat.succ_le_succ (Backoff.maxAttempts_le _ _)))
  | attempted room runs tries ending ihTries ihEnding =>
    obtain ⟨many, few, ht⟩ := ihTries
    have hfew := Nat.le_trans few (Nat.succ_le_succ (Backoff.maxAttempts_le _ _))
    refine ihEnding.tells ht hfew ?_ ?_
    · exact congrArg _ (newsAt_of_under [] (tries.attempts_outside _ (by simp)))
    · exact congrArg _ (newsAt_of_under [] (ending.ending_outside (by simp)))
  | succeeded result => exact Step.closes_entry [] (by simp) fun _ => .inl rfl
  | aborted result final => exact Step.closes_entry [] (by simp) (by simp)
  | ignored result mild policy => exact Step.closes_entry [] (by simp) fun _ => .inr policy
  | rescueCut result mild policy rescue ih =>
    exact Step.Closes.cut (by simp) (by simp) (by simp) (by simp)
  | rescued result mild policy rescue ih => exact Step.closes_entry _ (by simp) fun _ => .inl rfl
  | unrescued result mild policy rescue ih => exact Step.closes_entry _ (by simp) (by simp)
  | attemptCut once ih => exact ⟨1, by omega, .one (by simp)⟩
  | attemptLast once last ih => exact ⟨1, by omega, .one (by simp)⟩
  | pauseCut once mild ih => exact ⟨1, by omega, .one (by simp)⟩
  | pauseHalted once mild halted ih => exact ⟨1, by omega, (Tries.one (by simp)).raised _⟩
  | again once mild others ihOnce ihOthers =>
    obtain ⟨many, few, ht⟩ := ihOthers
    exact ⟨many + 1, by omega, ht.again⟩
  | inTime work ih => exact ih
  | timedOut work bound raised ih =>
    refine ih.imp (fun hnone => ?_) fun ⟨a, frame, fate, hin, hk, hw⟩ => ?_
    · simpa using hnone
    · exact ⟨a, frame, fate, by simpa using hin, hk, hw.raised _⟩
  | refused task raised => exact Or.inl ⟨rfl, rfl⟩
  | tooDeep task raised => exact Or.inl ⟨rfl, rfl⟩
  | noTarget task target => exact Or.inl ⟨rfl, rfl⟩
  | ran task target body ih => exact Or.inr ⟨_, _, _, ih.1, Task.ofArgs_run task, ih.2⟩
  | onPage asked few => exact Or.inl (by simp)
  | pageFails asked few raised => exact Or.inl (by simp)

end PageFlow
