import PageFlow.Page.Scripted
import PageFlow.Proofs.Run.Bounds
import PageFlow.Proofs.Run.Nesting
import PageFlow.Proofs.Run.Values

namespace PageFlow

open Event (here)

/-- What the steps of an action have left behind by its notes so far. -/
def progressOf (steps : List Step) (ns : List Note) : Progress where
  outputs := .ofList (writesOf steps ns)
  started := ns.countP Note.starts

/-- The steps of an action that begin among its notes are counted, from a count so far. -/
def Counts : Nat → List Note → Prop
  | _, [] => True
  | started, n :: rest =>
    (∀ index step progress, n.news = .begun index step progress → n.place.depth = 0 →
      progress.started = started) ∧ Counts (started + [n].countP Note.starts) rest

theorem Place.all_isFallback (place : Place) :
    List.all place Turn.isFallback = decide (place.depth = 0) := by
  induction place with
  | nil => rfl
  | cons turn place ih => cases turn <;> simp [Turn.isFallback, ih]

theorem Note.starts_of_depth {n : Note} (h : 0 < n.place.depth) : n.starts = false := by
  obtain ⟨news, place⟩ := n
  have hall : List.all place Turn.isFallback = false := by
    rw [Place.all_isFallback]
    exact decide_eq_false (Nat.ne_of_gt h)
  cases news <;> simp [Note.starts, hall]

theorem Note.starts_fallback (n : Note) (index : Nat) :
    (n.inside (.fallback index)).starts = n.starts := by
  obtain ⟨news, place⟩ := n
  cases news <;> simp [Note.starts, Note.inside, Turn.isFallback]

theorem Step.at?_of_depth {place : Place} (h : 0 < place.depth) (steps : List Step)
    (index : Nat) : Step.at? steps place index = none := by
  induction place generalizing steps with
  | nil => cases h
  | cons turn place ih =>
    cases turn with
    | attempt i count => rfl
    | fallback i =>
      rw [Place.depth_fallback] at h
      simp [Step.at?, ih h]

namespace Counts

variable {started : Nat} {ns ms : List Note} {n : Note}

theorem append (h : Counts started ns) (ht : Counts (started + ns.countP Note.starts) ms) :
    Counts started (ns ++ ms) := by
  induction ns generalizing started with
  | nil => exact ht
  | cons n ns ih =>
    refine ⟨h.1, ih h.2 ?_⟩
    rw [Nat.add_assoc, ← List.countP_append]
    exact ht

theorem counted (h : Counts started (ns ++ n :: ms)) {index : Nat} {step : Step}
    {progress : Progress} (hnews : n.news = .begun index step progress)
    (hdepth : n.place.depth = 0) : progress.started = started + ns.countP Note.starts := by
  induction ns generalizing started with
  | nil => exact h.1 index step progress hnews hdepth
  | cons m ns ih =>
    rw [ih h.2, Nat.add_assoc, ← List.countP_append]
    rfl

theorem attempt (index count : Nat) :
    Counts started (ns.map (Note.inside (.attempt index count))) := by
  induction ns generalizing started with
  | nil => trivial
  | cons n ns ih =>
    refine ⟨fun i step progress hnews hdepth => ?_, ih⟩
    rw [Note.inside, Place.depth_attempt] at hdepth
    exact absurd hdepth (Nat.succ_ne_zero _)

theorem fallback (h : Counts started ns) (index : Nat) :
    Counts started (ns.map (Note.inside (.fallback index))) := by
  induction ns generalizing started with
  | nil => trivial
  | cons n ns ih =>
    constructor
    · intro i step progress hnews hdepth
      rw [Note.inside, Place.depth_fallback] at hdepth
      exact h.1 i step progress hnews hdepth
    · have hstarts : [n.inside (.fallback index)].countP Note.starts = [n].countP Note.starts := by
        rw [List.countP_singleton, List.countP_singleton, Note.starts_fallback]
      rw [hstarts]
      exact ih h.2

theorem cons {news : News} (hnews : ∀ index step progress, news ≠ .begun index step progress)
    (h : Counts started ns) : Counts started ({ news } :: ns) := by
  constructor
  · intro index step progress heq
    exact (hnews index step progress heq).elim
  · cases news with
    | begun index step progress => exact (hnews index step progress rfl).elim
    | _ => exact h

theorem begun {index : Nat} {step : Step} {progress : Progress}
    (h : Counts (progress.started + 1) ns) :
    Counts progress.started ({ news := .begun index step progress } :: ns) := by
  refine ⟨?_, h⟩
  intro i s p hnews
  cases hnews
  exact fun _ => rfl

end Counts

/-- What a part of a run says of the number of steps that have begun in its action. -/
def Part.Counts : Part → List Event → Prop
  | steps _ _ _ _ progress _, es | step _ _ _ _ progress, es | ending _ _ _ _ _ progress _, es =>
    PageFlow.Counts progress.started (notesOf es)
  | attempts .., es => ∀ started, PageFlow.Counts started (notesOf es)
  | action .., es | bounded .., es | dispatch .., es => PageFlow.Counts 0 (notesOf es)

theorem Course.counts {settings : Settings} {part : Part} {es : List Event} {r : Option part.Result}
    (h : Course settings part es r) : part.Counts es := by
  induction h with
  | actionCut steps ih | actionFails steps ih | actionDone steps concluded ih =>
    exact .cons nofun ih
  | actionRefused steps refused ih =>
    rw [Part.Counts, notesOf_here, notesOf_append]
    exact .cons nofun (ih.append (.cons nofun trivial))
  | noSteps => trivial
  | stepCut head ih | stepFails head ih => exact ih
  | stepDone head tail ihHead ihTail =>
    have hafter : _ = _ + (notesOf _).countP Note.starts := Spends.counted head.spends _ rfl
    rw [Part.Counts, notesOf_append]
    exact ihHead.append (hafter ▸ ihTail)
  | halted | overLimit => exact .cons nofun trivial
  | skipped => exact .begun (.cons nofun trivial)
  | broken => exact .begun (.cons nofun (.cons nofun trivial))
  | attemptsCut room runs tries ih => exact .begun (.cons nofun (ih _))
  | attempted room runs tries ending ihTries ihEnding =>
    have hnone : (notesOf _).countP Note.starts = 0 := tries.spends
    rw [Part.Counts, notesOf_here, notesOf_here, notesOf_append]
    refine .begun (.cons nofun ((ihTries _).append ?_))
    rw [hnone]
    exact ihEnding
  | succeeded | aborted | ignored => exact .cons nofun trivial
  | rescueCut result mild policy rescue ih =>
    rw [Part.Counts, notesOf_inside]
    exact ih.fallback _
  | rescued result mild policy rescue ih | unrescued result mild policy rescue ih =>
    rw [Part.Counts, notesOf_append, notesOf_inside]
    exact (ih.fallback _).append (.cons nofun trivial)
  | attemptCut once ih | attemptLast once last ih | pauseCut once mild ih =>
    intro started
    rw [notesOf_here, notesOf_inside]
    exact .cons nofun (.attempt _ _)
  | pauseHalted once mild raised ih =>
    intro started
    rw [notesOf_here, notesOf_append, notesOf_inside]
    exact .cons nofun ((Counts.attempt _ _).append (.cons nofun trivial))
  | again once mild others ihOnce ihOthers =>
    intro started
    rw [notesOf_here, notesOf_append, notesOf_inside]
    exact .cons nofun ((Counts.attempt _ _).append (ihOthers _))
  | inTime work ih => exact ih
  | timedOut work bound raised ih =>
    rw [Part.Counts, notesOf_append]
    exact ih.append (.cons nofun trivial)
  | refused | tooDeep | noTarget => exact .cons nofun trivial
  | ran task target body ih => exact ih
  | onPage =>
    rw [Part.Counts, notesOf_sent]
    trivial
  | pageFails =>
    rw [Part.Counts, notesOf_append, notesOf_sent]
    exact .cons nofun trivial

section

variable {settings : Settings} {levels : Nat} {frame f : Frame} {a b : Action} {es : List Event}
  {r : Option (Outcome Json)} {place : Place}

/-- What comes from the place of an action is the course of the action, or of the attempt at it. -/
theorem Course.at_entered (h : Course settings (.action levels frame a) es r)
    (hb : .entered b f ∈ newsAt place es) :
    ∃ fs, notesAt place (notesOf es) = notesOf fs ∧ Counts 0 (notesOf fs) ∧
      f.Holds settings b fs := by
  obtain hnone | ⟨inner, fs, r, hc, hat, hnotes⟩ := h.at_place place
  · rw [newsAt, hnone] at hb
    cases hb
  rw [newsAt_of_notesAt_own hnotes] at hb
  refine ⟨fs, hnotes, ?_⟩
  cases hat with
  | root =>
    obtain ⟨rfl, rfl⟩ := hc.enters hb
    exact ⟨hc.counts, hc.nests⟩
  | turn outside holds =>
    cases holds with
    | fallback => exact (hc.enters hb).elim
    | attempt =>
      refine ⟨hc.counts, ?_⟩
      obtain hnone | ⟨a, bound, hcalls, hholds⟩ := hc.nests
      · exact (hnone [] b f (mem_newsAt.1 hb)).elim
      obtain ⟨-, rfl, rfl⟩ | hcontains := hholds [] b f (mem_newsAt.1 hb)
      · exact hholds
      · exact absurd hcontains.inside (Nat.lt_irrefl 0)

end

def News.OfAttempts : News → Prop
  | dispatched .. | attempted .. | raised _ => True
  | entered .. | begun .. | recorded _ => False

section

variable {steps : List Step} {n : Note}

theorem Note.write?_of_attempts (h : 0 < n.place.depth ∨ n.news.OfAttempts) :
    n.write? steps = none := by
  obtain ⟨news, place⟩ := n
  cases news with
  | recorded entry =>
    have hdepth : 0 < place.depth := h.resolve_right id
    simp [Note.write?, News.entry?, Step.at?_of_depth hdepth]
  | _ => rfl

theorem Note.starts_of_attempts (h : 0 < n.place.depth ∨ n.news.OfAttempts) :
    n.starts = false := by
  obtain hdepth | hnews := h
  · exact Note.starts_of_depth hdepth
  · obtain ⟨news, place⟩ := n
    cases news with
    | begun => exact hnews.elim
    | _ => rfl

/-- What attempts report, and all that happens inside of them, leaves nothing behind. -/
theorem progressOf_attempts (before : List Note) {inner : List Note}
    (h : ∀ n ∈ inner, 0 < n.place.depth ∨ n.news.OfAttempts) :
    progressOf steps (before ++ inner) = progressOf steps before := by
  have hwrites : writesOf steps inner = [] := by
    rw [writesOf, List.filterMap_eq_nil_iff]
    exact fun n hn => Note.write?_of_attempts (h n hn)
  have hstarts : inner.countP Note.starts = 0 := by
    rw [List.countP_eq_zero]
    exact fun n hn => Bool.eq_false_iff.1 (Note.starts_of_attempts (h n hn))
  rw [progressOf, progressOf, writesOf_append, hwrites, List.append_nil, List.countP_append,
    hstarts, Nat.add_zero]

theorem progressOf_begun {index : Nat} {step : Step} {progress : Progress} {list : Place}
    (before : List Note) (hlist : list.depth = 0) :
    progressOf steps (before ++ [⟨.begun index step progress, list⟩]) =
      (progressOf steps before).begin := by
  have hstarts : Note.starts ⟨.begun index step progress, list⟩ = true := by
    rw [Note.starts, Place.all_isFallback, hlist]
    rfl
  have hwrites : writesOf steps [⟨.begun index step progress, list⟩] = [] := rfl
  rw [progressOf, writesOf_append, hwrites, List.append_nil, List.countP_append,
    List.countP_singleton, hstarts]
  rfl

end

/--
What the events of a run say of a context: an action that is entered at a place, in a frame that is
made for it.
-/
structure Frame.Isolated (f : Frame) (settings : Settings) (root : Frame) (es : List Event)
    (place : Place) (b : Action) : Prop where
  /-- The frame has the env of the run, and the names, the selectors and the depth of the action. -/
  made : ∃ bound, f = .ofAction settings.registry b place.depth bound root.env
  /-- A step of the action sees the frame, and what the action's own steps have left behind. -/
  sees : ∀ before n rest, notesAt place (notesOf es) = before ++ n :: rest →
    ∀ index step progress, n.news = .begun index step progress → n.place.depth = 0 →
      progress = progressOf b.steps before ∧ Step.at? b.steps n.place index = some step ∧
        ∃ next others, rest = ⟨next, n.place⟩ :: others ∧
          step.Answers settings.limits (f.vars progress.begin) index next
  /-- However an attempt ends, what the steps have left behind is then as it was before. -/
  kept : ∀ before index step progress list inner rest,
    notesAt place (notesOf es) = before ++ ⟨.begun index step progress, list⟩ :: inner ++ rest →
    list.depth = 0 → (∀ n ∈ inner, 0 < n.place.depth ∨ n.news.OfAttempts) →
      progressOf b.steps (before ++ ⟨.begun index step progress, list⟩ :: inner) = progress.begin
  /-- What a step runs is found from the frame's name space, in every attempt the same. -/
  nested : ∀ list index count b' f', Place.depth list = 0 →
    .entered b' f' ∈ newsAt (place ++ (list ++ [.attempt index count])) es →
      ∃ step progress args bound, .begun index step progress ∈ newsAt (place ++ list) es ∧
        step.Runs settings.limits (f.vars progress.begin) args ∧
        step.Calls settings f index args b' bound ∧ f' = f.child settings.registry b' bound

section

variable {settings : Settings} {levels : Nat} {root f : Frame} {a b : Action} {es : List Event}
  {r : Option (Outcome Json)} {place : Place}

theorem Course.sees_at (h : Course settings (.action levels root a) es r)
    (hb : .entered b f ∈ newsAt place es) {before rest : List Note} {n : Note}
    (hsplit : notesAt place (notesOf es) = before ++ n :: rest) {index : Nat} {step : Step}
    {progress : Progress} (hnews : n.news = .begun index step progress)
    (hdepth : n.place.depth = 0) :
    progress = progressOf b.steps before ∧ Step.at? b.steps n.place index = some step ∧
      ∃ next others, rest = ⟨next, n.place⟩ :: others ∧
        step.Answers settings.limits (f.vars progress.begin) index next := by
  have hrecalls := h.recalls_at hb
  rw [hsplit] at hrecalls
  obtain ⟨hstep, houtputs, hnext⟩ := hrecalls.sees index step progress hnews hdepth
  obtain ⟨fs, hnotes, hcounts, -⟩ := h.at_entered hb
  rw [← hnotes, hsplit] at hcounts
  have hstarted := hcounts.counted hnews hdepth
  refine ⟨?_, hstep, hnext⟩
  obtain ⟨outputs, started⟩ := progress
  rw [Nat.zero_add] at hstarted
  cases houtputs
  cases hstarted
  rfl

theorem Course.isolated_at (h : Course settings (.action levels root a) es r)
    (hroot : ∃ bound env, root = .ofAction settings.registry a 0 bound env)
    (hb : .entered b f ∈ newsAt place es) : f.Isolated settings root es place b where
  made := by
    obtain ⟨bound, env, rfl⟩ := hroot
    obtain ⟨rfl, rfl, rfl⟩ | hcontains := h.nests place b f (mem_newsAt.1 hb)
    · exact ⟨bound, rfl⟩
    · obtain ⟨inner, hmade⟩ := hcontains.made
      exact ⟨inner, by simpa [Frame.ofAction] using hmade⟩
  sees before n rest hsplit index step progress hnews hdepth := h.sees_at hb hsplit hnews hdepth
  kept before index step progress list inner rest hsplit hlist hinner := by
    rw [List.append_assoc] at hsplit
    obtain ⟨hprogress, -⟩ := h.sees_at hb hsplit rfl hlist
    rw [List.append_cons, progressOf_attempts _ hinner, progressOf_begun _ hlist, hprogress]
  nested list index count b' f' hlist hb' := by
    obtain ⟨fs, hnotes, -, hholds⟩ := h.at_entered hb
    rw [newsAt_of_notesAt hnotes] at hb'
    have hdepth : Place.depth (list ++ [.attempt index count]) = 1 := by
      rw [Place.depth, List.countP_append, ← Place.depth, hlist]
      rfl
    obtain ⟨hnil, -⟩ | hcontains := hholds _ b' f' (mem_newsAt.1 hb')
    · cases list <;> cases hnil
    obtain ⟨list', index', count', hplace, -, step, progress, args, bound, hbegun, hspawns⟩ :=
      hcontains.spawned hdepth
    obtain ⟨rfl, hturn⟩ := List.append_inj' hplace rfl
    cases hturn
    refine ⟨step, progress, args, bound, ?_, hspawns⟩
    rw [newsAt_of_notesAt hnotes]
    exact mem_newsAt.2 hbegun

end

variable {σ : Type}

/--
Nested actions are isolated. Callers that agree on the env and the depth and run the same action
have attempts that can not be told apart, but for the caller's name in a failure, whatever else they
see and have done. And in every run each action is entered in a frame that has nothing of its
caller's but the env and the depth, sees only what its own steps have left behind, and has that left
as it was by all attempts at its steps.
-/
theorem execute_isolates (settings : Settings) (page : Page σ) :
    (∀ (c c' : Caller) (a : Action) (bound : Table Json), c.Runs settings a bound →
      c'.Runs settings a bound → c.Peers c' → ∀ (levels : Nat) (signals : Signals)
      (m m' : Moment σ), m.Agrees m' →
        SameRun (fun x y => c.SameOutcome c' x.1 y.1 ∧ x.2 = y.2)
          ((c.once settings levels).run page signals m)
          ((c'.once settings levels).run page signals m') ∧
        (c.SamePolicy c' → SameRun (c.SameAttempted c')
          ((c.attempts settings levels).run page signals m)
          ((c'.attempts settings levels).run page signals m'))) ∧
    ∀ (state : σ) (cancellation : Cancellation) (a : Action) (params env : Json) (root : Frame),
      Frame.root settings.registry a params env = .ok root →
      let es := eventsOf (history settings page state cancellation a params env)
      ∀ place b f, .entered b f ∈ newsAt place es → f.Isolated settings root es place b := by
  constructor
  · intro c c' a bound hc hc' hpeers levels signals m m' hm
    refine ⟨(Caller.once_alike hc hc' hpeers levels).run page signals hm, fun hpolicy => ?_⟩
    exact (Caller.attempts_alike hc hc' hpeers hpolicy levels).run page signals hm
  · intro state cancellation a params env root hroot es place b f hb
    cases execute_goes settings page state cancellation a params env with
    | unbound refused =>
      rw [hroot] at refused
      cases refused
    | ended bound course =>
      rw [hroot] at bound
      cases bound
      exact course.isolated_at (Frame.root_eq hroot) hb
    | interrupted bound course =>
      rw [hroot] at bound
      cases bound
      exact course.isolated_at (Frame.root_eq hroot) hb

def peek : Action where
  name := "peek"
  space := "shop"
  steps := []
  returns := some [("seen", .string "$\x7bsteps.repos\x7d")]

def peeking : Step where
  kind := .run
  args := [("action", .string "peek")]

/-- An action that records something, and then runs the other. -/
def browse : Action where
  name := "browse"
  space := "shop"
  steps := [{ kind := .count, args := [("selector", .string ".repo")], output := some "repos" },
    peeking]

def browsing : Settings where
  registry := .ofActions [peek]

/-- A caller that has recorded something, and one that has just started. -/
theorem execute_isolates_peek :
    let early : Caller :=
      { frame := .ofAction browsing.registry browse 0 [] [], progress := {}, index := 0,
        step := peeking, args := peeking.args }
    let late : Caller :=
      { frame := { early.frame with action := "shop:visit", params := [("page", .text "7")] },
        progress := { outputs := [("repos", .text "5")], started := 3 }, index := 2,
        step := peeking, args := peeking.args }
    let es := eventsOf (history browsing Script.page {} {} browse .null .null)
    SameRun (early.SameAttempted late)
        ((early.attempts browsing 1).run Script.page { deadline := 1000 } { page := {} })
        ((late.attempts browsing 1).run Script.page { deadline := 1000 } { page := {} }) ∧
      ∃ root b f, .entered b f ∈ newsAt [.attempt 1 1] es ∧
        f.Isolated browsing root es [.attempt 1 1] b := by
  intro early late es
  have hname : ∀ vars, interpolate vars "peek" = .ok "peek" :=
    interpolate_of_none (by decide)
  have hargs : ∀ vars, interpolateFields vars peeking.args = .ok peeking.args := by
    intro vars
    simp only [peeking, interpolateFields, interpolateJson, hname]
    rfl
  have hearly : early.Runs browsing peek [] := ⟨⟨.inl rfl, hargs _⟩, "peek", .object [], rfl, rfl⟩
  have hlate : late.Runs browsing peek [] := ⟨⟨.inl rfl, hargs _⟩, "peek", .object [], rfl, rfl⟩
  obtain ⟨hcallers, hcontexts⟩ := execute_isolates browsing Script.page
  constructor
  · exact (hcallers early late peek [] hearly hlate ⟨rfl, rfl⟩ 1 { deadline := 1000 } _ _
      ⟨rfl, rfl, rfl, rfl⟩).2 ⟨rfl, rfl, rfl⟩
  · have hroot : Frame.root browsing.registry browse .null .null =
        .ok (.ofAction browsing.registry browse 0 [] []) := rfl
    have hone : ((newsAt [.attempt 1 1] es).filterMap fun news =>
        Note.entered? { news }).length = 1 := by decide +kernel
    obtain ⟨b, hb⟩ := List.exists_mem_of_length_pos (hone ▸ Nat.one_pos)
    obtain ⟨news, hnews, hentered⟩ := List.mem_filterMap.1 hb
    cases news with
    | entered b f => exact ⟨_, b, f, hnews, hcontexts {} {} browse .null .null _ hroot _ b f hnews⟩
    | _ => cases hentered

end PageFlow
