import PageFlow.Proofs.Run.Record
import PageFlow.Proofs.Run.Report

namespace PageFlow

/--
Records that follow a list of steps from its start, one for each step. Only the last can be of a
failure that is not ignored.
-/
def GapFree (steps : List Step) (entries : List Entry) : Prop :=
  ∀ j entry, entries[j]? = some entry → ∃ step, steps[j]? = some step ∧ entry.index = j ∧
    entry.kind = step.kind ∧ (step.Tolerates entry ∨ j + 1 = entries.length)

/-- The list of steps that is run in a place: that of an action, or the fallback list of a step. -/
inductive Lists (es : List Event) : Place → List Step → Prop
  | root {a : Action} {frame : Frame} (entered : .entered a frame ∈ newsAt [] es) :
    Lists es [] a.steps
  | nested {place : Place} {index count : Nat} {step : Step} {progress : Progress} {a : Action}
    {frame : Frame} (begun : .begun index step progress ∈ newsAt place es) (kind : step.kind = .run)
    (entered : .entered a frame ∈ newsAt (place ++ [.attempt index count]) es) :
    Lists es (place ++ [.attempt index count]) a.steps
  | fallback {place : Place} {index : Nat} {step : Step} {progress : Progress}
    (begun : .begun index step progress ∈ newsAt place es) :
    Lists es (place ++ [.fallback index]) step.fallback

theorem Walks.gapFree {steps : List Step} {es : List Event} {fate : Fate}
    (h : Walks steps 0 es fate) : GapFree steps (entriesAt [] es) := by
  intro j entry he
  obtain ⟨step, hs, hi, hk, -, ho⟩ := h.entries j entry he
  exact ⟨step, hs, by omega, hk, ho.imp_right And.left⟩

theorem Entry.Accounts.at_place {entry : Entry} {place : Place} {es fs : List Event}
    (h : entry.Accounts [] fs) (hnotes : notesAt place (notesOf es) = notesOf fs) :
    entry.Accounts place es where
  attempts := (told_congr (newsAt_of_notesAt_own hnotes)).trans h.attempts
  nested := by
    refine h.nested.trans (congrArg₂ _ ?_ ?_)
    · exact told_congr (newsAt_of_notesAt hnotes _).symm
    · exact told_congr (newsAt_of_notesAt hnotes _).symm

section

variable {settings : Settings} {levels : Nat} {frame : Frame} {a : Action} {es : List Event}
  {place : Place}

theorem Part.At.begun {outer : Part} (h : (Part.action levels frame a).At es place outer)
    {own : List News} {index : Nat} {step : Step} (hw : outer.Works own index step) :
    ∃ progress, .begun index step progress ∈ own := by
  apply hw.resolve_left
  intro hr
  cases h with
  | root => exact hr
  | turn outside holds => cases holds <;> exact hr

/-- What is told in a place is told of the steps that are run there. -/
theorem Course.walks {r : Option (Outcome Json)} (h : Course settings (.action levels frame a) es r)
    (place : Place) :
    startsAt place es = [] ∧ entriesAt place es = [] ∨
      ∃ steps fs fate, Lists es place steps ∧ Walks steps 0 fs fate ∧
        notesAt place (notesOf es) = notesOf fs := by
  rcases h.at_place place with hnone | ⟨inner, fs, r, hc, hat, hnotes⟩
  · have hown : newsAt place es = newsAt [] [] := newsAt_of_notesAt_own hnone
    exact .inl ⟨told_congr hown, told_congr hown⟩
  have hown := newsAt_of_notesAt_own hnotes
  have htells := hc.tells
  cases hat with
  | root =>
    have hentered : .entered a frame ∈ newsAt [] es := hown ▸ htells.1
    exact .inr ⟨a.steps, fs, _, .root hentered, htells.2, hnotes⟩
  | turn outside holds =>
    cases holds with
    | attempt works =>
      obtain ⟨progress, hbegun⟩ := outside.begun works
      rcases htells with ⟨hstarts, hentries⟩ | ⟨b, child, fate, hin, hk, hw⟩
      · exact .inl ⟨(told_congr hown).trans hstarts, (told_congr hown).trans hentries⟩
      · exact .inr ⟨b.steps, fs, fate, .nested hbegun hk (hown ▸ hin), hw, hnotes⟩
    | fallback works =>
      obtain ⟨progress, hbegun⟩ := outside.begun works
      exact .inr ⟨_, fs, _, .fallback hbegun, htells, hnotes⟩

theorem Course.gapFree {r : Option (Outcome Json)}
    (h : Course settings (.action levels frame a) es r) (place : Place) :
    entriesAt place es = [] ∨
      ∃ steps, Lists es place steps ∧ GapFree steps (entriesAt place es) := by
  refine (h.walks place).imp And.right fun ⟨steps, fs, fate, hlists, hwalks, hnotes⟩ => ?_
  have hown : entriesAt place es = entriesAt [] fs := told_congr (newsAt_of_notesAt_own hnotes)
  exact ⟨steps, hlists, hown ▸ hwalks.gapFree⟩

theorem Course.accounts {r : Option (Outcome Json)}
    (h : Course settings (.action levels frame a) es r) {place : Place} {entry : Entry}
    (he : entry ∈ entriesAt place es) : entry.Accounts place es := by
  rcases h.walks place with ⟨-, hnone⟩ | ⟨steps, fs, fate, -, hwalks, hnotes⟩
  · rw [hnone] at he
    cases he
  have hown : entriesAt place es = entriesAt [] fs := told_congr (newsAt_of_notesAt_own hnotes)
  exact (hwalks.accounts entry (hown ▸ he)).at_place hnotes

end

/-- A trace tells of the top-level steps of a run, where `es` are the events of the run. -/
structure Report.Traces (report : Report) (a : Action) (es : List Event) : Prop where
  gapFree : GapFree a.steps report.trace
  /-- The trace has one record for each step that was started. -/
  starts : startsAt [] es = a.steps.zipIdx.take report.trace.length
  succeeded : ∀ value, report.result = .ok value → report.trace.length = a.steps.length ∧
    ∀ (j : Nat) (step : Step) (entry : Entry), a.steps[j]? = some step →
      report.trace[j]? = some entry → step.Tolerates entry
  /-- The trace is what was recorded, with a record more of the step that was interrupted. -/
  recorded : report.trace = entriesAt [] es ∨ ∃ (f : InFlight) (e : ActionError),
    report.result = .error e ∧ attemptsAt f.index [] es = List.range' 1 f.attempts ∧
      report.trace = entriesAt [] es ++ [⟨f.index, f.kind, f.attempts, .failed e, none, []⟩]

theorem Walks.tolerates {steps : List Step} {index : Nat} {es : List Event} {fate : Fate}
    (h : Walks steps index es fate) (hf : fate ≠ .failed) {j : Nat} {step : Step} {entry : Entry}
    (hs : steps[j]? = some step) (he : (entriesAt [] es)[j]? = some entry) :
    step.Tolerates entry := by
  obtain ⟨s, hs', -, -, -, ho⟩ := h.entries j entry he
  cases hs.symm.trans hs'
  exact ho.resolve_right fun hfailed => hf hfailed.2

theorem GapFree.concat {steps : List Step} {entries : List Entry} {entry : Entry} {step : Step}
    (h : GapFree steps entries) (ht : ∀ (j : Nat) (s : Step) (e : Entry), steps[j]? = some s →
      entries[j]? = some e → s.Tolerates e) (hs : steps[entries.length]? = some step)
    (hi : entry.index = entries.length) (hk : entry.kind = step.kind) :
    GapFree steps (entries ++ [entry]) := by
  intro j e he
  rcases Nat.lt_trichotomy j entries.length with hj | rfl | hj
  · rw [List.getElem?_append_left hj] at he
    obtain ⟨s, hs, hi, hk, -⟩ := h j e he
    exact ⟨s, hs, hi, hk, .inl (ht j s e hs he)⟩
  · obtain rfl : entry = e := by simpa using he
    exact ⟨step, hs, hi, hk, .inr (by simp)⟩
  · rw [List.getElem?_eq_none (by simpa using Nat.succ_le_of_lt hj)] at he
    cases he

theorem Report.Traces.of_ended {a : Action} {es : List Event} {report : Report}
    {result : Outcome Json} (h : Walks a.steps 0 es (fate (some result)))
    (hr : report.result = result) (ht : report.trace = entriesAt [] es) : report.Traces a es where
  gapFree := ht ▸ h.gapFree
  starts := by
    have hover : fate (some result) ≠ .cut := by cases result <;> simp
    rw [ht, h.starts, if_neg hover, Nat.add_zero]
  succeeded value hv := by
    have hdone : fate (some result) = .done := by rw [← hr, hv]; rfl
    rw [ht]
    exact ⟨h.all hdone, fun j step entry hs he => h.tolerates (by rw [hdone]; simp) hs he⟩
  recorded := .inl ht

/-- The ledger of a run that is cut short names the step after those that are recorded. -/
theorem Walks.ledger {steps : List Step} {es : List Event} (h : Walks steps 0 es .cut) :
    ∃ (f : InFlight) (step : Step), steps[(entriesAt [] es).length]? = some step ∧
      f.index = (entriesAt [] es).length ∧ f.Shows step es ∧
        Ledger.after {} es = ⟨entriesAt [] es, some f⟩ := by
  obtain ⟨f, step, hs, hi, hshows⟩ := h.inFlight rfl
  refine ⟨f, step, hs, hi.trans (Nat.zero_add _), hshows, ?_⟩
  rw [entriesAt_nil, ← hshows.ledger {}, ← List.nil_append (entriesOf es)]
  exact congrArg₂ Ledger.mk (Ledger.after_entries {} es) rfl

theorem Report.Traces.of_interrupted {a : Action} {es : List Event} {report : Report}
    {fault : ActionFault} {frame : Frame} {e : ActionError} {trace : List Entry}
    (h : Walks a.steps 0 es .cut)
    (ledger : (Ledger.after {} es).interrupted fault frame = (e, trace))
    (hr : report.result = .error e) (ht : report.trace = trace) : report.Traces a es := by
  obtain ⟨f, step, hs, hi, hshows, hafter⟩ := h.ledger
  rw [hafter] at ledger
  cases ledger
  exact {
    gapFree := by
      rw [ht]
      exact h.gapFree.concat (fun j s e hs he => h.tolerates (by simp) hs he) hs hi hshows.kind
    starts := by
      rw [ht, List.length_append]
      exact h.starts
    succeeded := by simp [hr]
    recorded := .inr ⟨f, _, hr, hshows.attempts, ht⟩ }

variable {σ : Type}

/--
The trace of a run follows the steps of its action without a gap, and so do the records that are
made in any other place of the run. A record that is made at the end of a step holds the records of
the last attempt at the step and of its fallback list, as the steps that are run there leave them.
-/
theorem execute_traces (settings : Settings) (page : Page σ) (state : σ)
    (cancellation : Cancellation) (a : Action) (params env : Json) :
    let es := eventsOf (history settings page state cancellation a params env)
    (execute settings page state cancellation a params env).1.Traces a es ∧
      ∀ place, (entriesAt place es = [] ∨
          ∃ steps, Lists es place steps ∧ GapFree steps (entriesAt place es)) ∧
        ∀ entry ∈ entriesAt place es, entry.Accounts place es := by
  intro es
  have hgoes : Goes settings a params env es _ :=
    execute_goes settings page state cancellation a params env
  cases hgoes with
  | unbound root events reported =>
    rw [events, reported]
    exact ⟨⟨by simp [GapFree], rfl, by simp, .inl rfl⟩, by simp⟩
  | ended root course result trace =>
    exact ⟨.of_ended course.tells.2 result (trace.trans (entriesAt_nil es).symm),
      fun place => ⟨course.gapFree place, fun entry he => course.accounts he⟩⟩
  | interrupted root course stops ledger result trace =>
    exact ⟨.of_interrupted course.tells.2 ledger result trace,
      fun place => ⟨course.gapFree place, fun entry he => course.accounts he⟩⟩

end PageFlow
