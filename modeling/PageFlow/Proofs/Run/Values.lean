import PageFlow.Proofs.Run.Recall
import PageFlow.Proofs.Run.Report

namespace PageFlow

open Event (here)

/-- The value of the last of some records that has one, or the given value if none has. -/
def lastValue (entries : List Entry) (last : Json) : Json :=
  (entries.filterMap fun entry => entry.outcome.value?).getLastD last

def Part.Values : (part : Part) → List Event → Option part.Result → Prop
  | steps _ _ _ _ _ last, es, r => ∀ after value, r = some (.ok (after, value)) →
    value = lastValue (entriesOf es) last
  | step .., es, r | ending .., es, r => ∀ after value, r = some (.ok (after, value)) →
    (entriesOf es).filterMap (fun entry => entry.outcome.value?) = value.toList
  | attempts .., es, _ => entriesOf es = []
  | action .., _, _ | bounded .., _, _ | dispatch .., _, _ => True

theorem Course.values {settings : Settings} {part : Part} {es : List Event}
    {r : Option part.Result} (h : Course settings part es r) : part.Values es r := by
  induction h with
  | actionCut | actionFails | actionRefused | actionDone => trivial
  | inTime | timedOut | refused | tooDeep | noTarget | ran | onPage | pageFails => trivial
  | noSteps =>
    rintro after value ⟨⟩
    rfl
  | stepCut | stepFails | halted | overLimit | broken | attemptsCut | rescueCut =>
    rintro after value ⟨⟩
  | @stepDone _ _ _ _ _ _ _ _ _ own _ _ head tail ihHead ihTail =>
    intro after value hr
    have hhead := ihHead _ _ rfl
    have htail := ihTail after value hr
    rw [htail, lastValue, lastValue, entriesOf_append, List.filterMap_append, hhead]
    cases own with
    | none => rfl
    | some given => exact (List.getLastD_cons ..).symm
  | skipped room skips =>
    rintro after value ⟨⟩
    rfl
  | attempted room runs tries ending ihTries ihEnding =>
    intro after value hr
    have htries : entriesOf _ = [] := ihTries
    simpa [htries] using ihEnding after value hr
  | succeeded | rescued =>
    rintro after value ⟨⟩
    simp [Step.entry, StepOutcome.value?]
  | ignored =>
    rintro after value ⟨⟩
    rfl
  | aborted | unrescued =>
    rintro after value ⟨⟩
  | attemptCut | attemptLast | pauseCut | pauseHalted => simp [Part.Values]
  | again once mild others ihOnce ihOthers =>
    have hothers : entriesOf _ = [] := ihOthers
    simp [Part.Values, hothers]

/-- Nothing happens inside of a step once it is recorded. -/
def Note.Precedes (n m : Note) : Prop :=
  ∀ entry, n.news = .recorded entry → ∀ turn : Turn, turn.index = entry.index →
    ¬ n.place ++ [turn] <+: m.place

namespace Note

variable {n m : Note}

theorem precedes_of_unrecorded (h : ∀ entry, n.news ≠ .recorded entry) : n.Precedes m :=
  fun entry hnews => absurd hnews (h entry)

theorem precedes_of_own (h : m.place = []) : n.Precedes m := by
  intro entry hnews turn hturn hprefix
  rw [h, List.prefix_nil] at hprefix
  simp at hprefix

theorem precedes_of_index (h : ∀ i, n.index? = some i → m.index? ≠ some i) : n.Precedes m := by
  intro entry hnews turn hturn hprefix
  obtain ⟨news, place⟩ := n
  obtain ⟨rest, hplace⟩ := hprefix
  cases hnews
  obtain ⟨news, _⟩ := m
  cases hplace
  cases place with
  | nil => exact h entry.index rfl (congrArg some hturn)
  | cons t place => exact h t.index rfl rfl

theorem precedes_of_turn {t : Turn} (hn : n.place.head? = some t) (hm : m.place.head? ≠ some t) :
    n.Precedes m := by
  intro entry hnews turn hturn hprefix
  obtain ⟨rest, hplace⟩ := hprefix
  cases hp : n.place with
  | nil =>
    rw [hp] at hn
    cases hn
  | cons own place =>
    rw [hp] at hn hplace
    rw [← hplace] at hm
    exact hm hn

theorem Precedes.inside (h : n.Precedes m) (turn : Turn) :
    (n.inside turn).Precedes (m.inside turn) := by
  intro entry hnews t ht hprefix
  exact h entry hnews t ht (List.cons_prefix_cons.1 hprefix).2

end Note

def Ordered (ns : List Note) : Prop :=
  ns.Pairwise Note.Precedes

namespace Ordered

variable {ns : List Note}

theorem cons {news : News} (hnews : ∀ entry, news ≠ .recorded entry) (h : Ordered ns) :
    Ordered ({ news } :: ns) :=
  List.pairwise_cons.2 ⟨fun _ _ => Note.precedes_of_unrecorded hnews, h⟩

theorem concat (h : Ordered ns) (news : News) : Ordered (ns ++ [({ news } : Note)]) := by
  refine List.pairwise_append.2 ⟨h, List.pairwise_singleton _ _, fun n _ m hm => ?_⟩
  cases List.mem_singleton.1 hm
  exact Note.precedes_of_own rfl

theorem inside (h : Ordered ns) (turn : Turn) : Ordered (ns.map (Note.inside turn)) :=
  List.pairwise_map.2 (h.imp fun hprecedes => hprecedes.inside turn)

end Ordered

theorem unrecorded_of_entriesOf {es : List Event} (h : entriesOf es = []) {n : Note}
    (hn : n ∈ notesOf es) (hplace : n.place.head? = none) (entry : Entry) :
    n.news ≠ .recorded entry := by
  intro hnews
  obtain ⟨news, place⟩ := n
  cases hnews
  cases List.head?_eq_none_iff.1 hplace
  have hentry : entry ∈ entriesOf es := List.mem_filterMap.2 ⟨_, mem_notesOf.1 hn, rfl⟩
  rw [h] at hentry
  cases hentry

/-- The notes of a part of a run come in the order of its steps. -/
theorem Course.ordered {settings : Settings} {part : Part} {es : List Event}
    {r : Option part.Result} (h : Course settings part es r) : Ordered (notesOf es) := by
  induction h with
  | actionCut steps ih | actionFails steps ih | actionDone steps concluded ih =>
    exact .cons nofun ih
  | actionRefused steps refused ih =>
    rw [notesOf_here, notesOf_append]
    exact .cons nofun (ih.concat _)
  | noSteps => exact .nil
  | stepCut head ih | stepFails head ih => exact ih
  | stepDone head tail ihHead ihTail =>
    rw [notesOf_append]
    refine List.pairwise_append.2 ⟨ihHead, ihTail, fun n hn m hm => ?_⟩
    apply Note.precedes_of_index
    intro i hi hsame
    have hhead := head.covers n (mem_notesOf.1 hn) i hi
    have htail := tail.covers m (mem_notesOf.1 hm) i hsame
    omega
  | halted | overLimit => exact .cons nofun .nil
  | skipped => exact .cons nofun (List.pairwise_singleton _ _)
  | broken => exact .cons nofun (.cons nofun (List.pairwise_singleton _ _))
  | attemptsCut room runs tries ih => exact .cons nofun (.cons nofun ih)
  | attempted room runs tries ending ihTries ihEnding =>
    rw [notesOf_here, notesOf_here, notesOf_append]
    -- The attempts record nothing of the step itself, and what follows them is in no attempt.
    refine .cons nofun (.cons nofun ?_)
    refine List.pairwise_append.2 ⟨ihTries, ihEnding, fun n hn m hm => ?_⟩
    cases hplace : n.place.head? with
    | none => exact Note.precedes_of_unrecorded (unrecorded_of_entriesOf tries.values hn hplace)
    | some turn =>
      apply Note.precedes_of_turn hplace
      intro hsame
      obtain ⟨c, -, rfl⟩ := (tries.covers n (mem_notesOf.1 hn)).2 turn hplace
      cases (ending.covers m (mem_notesOf.1 hm)).2 _ hsame
  | succeeded | aborted | ignored => exact List.pairwise_singleton _ _
  | rescueCut result mild policy rescue ih =>
    rw [notesOf_inside]
    exact ih.inside _
  | rescued result mild policy rescue ih | unrescued result mild policy rescue ih =>
    rw [notesOf_append, notesOf_inside]
    exact (ih.inside _).concat _
  | attemptCut once ih | attemptLast once last ih | pauseCut once mild ih =>
    rw [notesOf_here, notesOf_inside]
    exact .cons nofun (ih.inside _)
  | pauseHalted once mild halted ih =>
    rw [notesOf_here, notesOf_append, notesOf_inside]
    exact .cons nofun ((ih.inside _).concat _)
  | again once mild others ihOnce ihOthers =>
    rw [notesOf_here, notesOf_append, notesOf_inside]
    refine .cons nofun (List.pairwise_append.2 ⟨ihOnce.inside _, ihOthers, fun n hn m hm => ?_⟩)
    obtain ⟨n, -, rfl⟩ := List.mem_map.1 hn
    apply Note.precedes_of_turn rfl
    intro hsame
    obtain ⟨c, hc, hturn⟩ := (others.covers m (mem_notesOf.1 hm)).2 _ hsame
    cases hturn
    omega
  | inTime work ih => exact ih
  | timedOut work bound raised ih =>
    rw [notesOf_append]
    exact ih.concat _
  | refused task raised | tooDeep task raised | noTarget task target => exact .cons nofun .nil
  | ran task target body ih => exact ih
  | onPage asked few =>
    rw [notesOf_sent]
    exact .nil
  | pageFails asked few raised =>
    rw [notesOf_append, notesOf_sent]
    exact .cons nofun .nil

theorem mem_of_entriesAt {entry : Entry} {es : List Event} (h : entry ∈ entriesAt [] es) :
    .noted { news := .recorded entry } ∈ es := by
  rw [entriesAt_nil] at h
  obtain ⟨e, he, hentry⟩ := List.mem_filterMap.1 h
  cases e with
  | sent c => cases hentry
  | noted n =>
    obtain ⟨news, place⟩ := n
    cases place with
    | nil => cases news <;> cases hentry; exact he
    | cons turn place => cases news <;> cases hentry

/-- What the record of a step says of the courses inside of the step. -/
structure Entry.Comes (entry : Entry) (settings : Settings) (es : List Event) : Prop where
  own : ∀ value, entry.outcome = .succeeded value → ∃ levels frame step args gs,
    Course settings (.bounded levels frame entry.index step args) gs (some (.ok value)) ∧
      under (.attempt entry.index entry.attempts) (notesOf es) = notesOf gs
  rescue : ∀ value e, entry.outcome = .rescued value e → ∃ levels frame steps progress after gs,
    Course settings (.steps levels frame 0 steps progress .null) gs (some (.ok (after, value))) ∧
      under (.fallback entry.index) (notesOf es) = notesOf gs

namespace Entry.Comes

variable {entry : Entry} {settings : Settings} {es fs : List Event}

theorem congr (h : entry.Comes settings es)
    (hunder : ∀ turn : Turn, turn.index = entry.index →
      under turn (notesOf fs) = under turn (notesOf es)) : entry.Comes settings fs where
  own value hvalue := by
    obtain ⟨levels, frame, step, args, gs, hc, hgs⟩ := h.own value hvalue
    exact ⟨levels, frame, step, args, gs, hc, (hunder _ rfl).trans hgs⟩
  rescue value e hvalue := by
    obtain ⟨levels, frame, steps, progress, after, gs, hc, hgs⟩ := h.rescue value e hvalue
    exact ⟨levels, frame, steps, progress, after, gs, hc, (hunder _ rfl).trans hgs⟩

theorem of_valueless (h : entry.outcome.value? = none) : entry.Comes settings es where
  own value hvalue := by simp [hvalue, StepOutcome.value?] at h
  rescue value e hvalue := by simp [hvalue, StepOutcome.value?] at h

end Entry.Comes

/-- What a part of a run says of the courses inside of the steps that it records. -/
def Part.Comes (settings : Settings) : (part : Part) → List Event → Option part.Result → Prop
  | attempts levels frame index s args _ count, es, r => ∀ ended value, r = some ended →
    ended.result = .ok value → count ≤ ended.attempts ∧ ∃ gs,
      Course settings (.bounded levels frame index s args) gs (some (.ok value)) ∧
        under (.attempt index ended.attempts) (notesOf es) = notesOf gs
  | ending _ _ index _ _ _ ended, es, _ => ∀ entry ∈ entriesAt [] es,
    entry.index = index ∧ entry.attempts = ended.attempts ∧
      (∀ value, entry.outcome = .succeeded value → ended.result = .ok value) ∧
        ∀ value e, entry.outcome = .rescued value e → ∃ levels frame steps progress after gs,
          Course settings (.steps levels frame 0 steps progress .null) gs
              (some (.ok (after, value))) ∧
            under (.fallback index) (notesOf es) = notesOf gs
  | action .., es, _ | steps .., es, _ | step .., es, _ | bounded .., es, _ | dispatch .., es, _ =>
    ∀ entry ∈ entriesAt [] es, entry.Comes settings es

theorem Course.comes {settings : Settings} {part : Part} {es : List Event}
    {r : Option part.Result} (h : Course settings part es r) : part.Comes settings es r := by
  induction h with
  | actionCut steps ih | actionFails steps ih | actionRefused steps refused ih
    | actionDone steps concluded ih =>
    intro entry he
    exact (ih entry (by simpa using he)).congr (by simp)
  | noSteps | halted | overLimit | refused | tooDeep | noTarget | onPage | pageFails =>
    intro entry he
    simp at he
  | stepCut head ih | stepFails head ih => exact ih
  | stepDone head tail ihHead ihTail =>
    intro entry he
    simp only [told_append, List.mem_append] at he
    rcases he with he | he
    -- Either side is silent on the turns of the steps that the other side records.
    · have hindex := head.covers _ (mem_of_entriesAt he) _ rfl
      refine (ihHead entry he).congr fun turn hturn => ?_
      have hsilent := tail.steps_silent (Nat.lt_succ_of_le (Nat.le_of_eq (hturn.trans hindex)))
      rw [notesOf_append, under_append, hsilent.under, List.append_nil]
    · have hindex := tail.covers _ (mem_of_entriesAt he) _ rfl
      refine (ihTail entry he).congr fun turn hturn => ?_
      have hsilent : Silent turn.index _ := head.step_silent (by omega)
      rw [notesOf_append, under_append, hsilent.under, List.nil_append]
  | skipped | broken =>
    intro entry he
    obtain rfl : entry = _ := by simpa using he
    exact .of_valueless rfl
  | attemptsCut room runs tries ih =>
    intro entry he
    have hnone : entriesAt [] _ = [] := (entriesAt_nil _).trans tries.values
    simp [hnone] at he
  | @attempted _ _ index _ _ _ es ended fs _ room runs tries ending ihTries ihEnding =>
    intro entry he
    have hnone : entriesAt [] es = [] := (entriesAt_nil es).trans tries.values
    obtain ⟨rfl, hattempts, hown, hrescue⟩ := ihEnding entry (by simpa [hnone] using he)
    constructor
    · intro value hvalue
      obtain ⟨-, gs, hc, hgs⟩ := ihTries ended value rfl (hown value hvalue)
      refine ⟨_, _, _, _, gs, hc, ?_⟩
      have hout : under (.attempt entry.index ended.attempts) (notesOf fs) = [] :=
        ending.ending_outside nofun
      simpa [hattempts, hout] using hgs
    · intro value e hvalue
      obtain ⟨levels, frame, steps, progress, after, gs, hc, hgs⟩ := hrescue value e hvalue
      refine ⟨levels, frame, steps, progress, after, gs, hc, ?_⟩
      have hout : under (.fallback entry.index) (notesOf es) = [] :=
        tries.attempts_outside _ nofun
      simpa [hout] using hgs
  | succeeded result =>
    intro entry he
    obtain rfl : entry = _ := by simpa using he
    refine ⟨rfl, rfl, fun value hvalue => ?_, nofun⟩
    cases hvalue
    exact result
  | aborted | ignored =>
    intro entry he
    obtain rfl : entry = _ := by simpa using he
    exact ⟨rfl, rfl, nofun, nofun⟩
  | rescueCut result mild policy rescue ih =>
    intro entry he
    simp at he
  | rescued result mild policy rescue ih =>
    intro entry he
    obtain rfl : entry = _ := by simpa using he
    refine ⟨rfl, rfl, nofun, fun value e hvalue => ?_⟩
    cases hvalue
    exact ⟨_, _, _, _, _, _, rescue, by simp⟩
  | unrescued result mild policy rescue ih =>
    intro entry he
    obtain rfl : entry = _ := by simpa using he
    exact ⟨rfl, rfl, nofun, nofun⟩
  | attemptCut once ih | pauseCut once mild ih =>
    rintro ended value ⟨⟩
  | attemptLast once last ih =>
    rintro ended value ⟨⟩ rfl
    exact ⟨Nat.le_refl _, _, once, by simp⟩
  | pauseHalted once mild halted ih =>
    rintro ended value ⟨⟩ ⟨⟩
  | @again _ _ index _ _ _ count es _ fs _ once mild others ihOnce ihOthers =>
    intro ended value hr hvalue
    obtain ⟨hcount, gs, hc, hgs⟩ := ihOthers ended value hr hvalue
    refine ⟨Nat.le_of_succ_le hcount, gs, hc, ?_⟩
    have hother : Turn.attempt index count ≠ .attempt index ended.attempts := by
      intro heq
      obtain ⟨-, hsame⟩ := Turn.attempt.inj heq
      omega
    simpa [under_other _ hother] using hgs
  | inTime work ih => exact ih
  | timedOut work bound raised ih =>
    intro entry he
    exact (ih entry (by simpa using he)).congr (by simp)
  | ran task target body ih => exact ih

section

variable {settings : Settings} {levels : Nat} {frame : Frame} {a : Action} {es : List Event}
  {r : Option (Outcome Json)} {place : Place}

theorem Course.comes_at (h : Course settings (.action levels frame a) es r) {entry : Entry}
    (he : entry ∈ entriesAt place es) : ∃ fs, entry.Comes settings fs ∧
      notesAt place (notesOf es) = notesOf fs := by
  rcases h.at_place place with hnone | ⟨inner, fs, r, hc, hat, hnotes⟩
  · have hown : entriesAt place es = entriesAt [] [] :=
      told_congr (@newsAt_of_notesAt_own place es [] hnone)
    rw [hown] at he
    cases he
  have hown : entriesAt place es = entriesAt [] fs := told_congr (newsAt_of_notesAt_own hnotes)
  rw [hown] at he
  refine ⟨fs, ?_, hnotes⟩
  cases hat with
  | root => exact hc.comes entry he
  | turn outside holds => cases holds <;> exact hc.comes entry he

theorem Course.recalls_at (h : Course settings (.action levels frame a) es r) {b : Action}
    {f : Frame} (hb : .entered b f ∈ newsAt place es) :
    Recalls settings.limits f b.steps [] (notesAt place (notesOf es)) := by
  rcases h.at_place place with hnone | ⟨inner, fs, r, hc, hat, hnotes⟩
  · rw [hnone]
    trivial
  rw [newsAt_of_notesAt_own hnotes] at hb
  rw [hnotes]
  cases hat with
  | root => exact (hc.recalls b f hb).recalls
  | turn outside holds =>
    cases holds with
    | attempt => exact (hc.recalls b f hb).recalls
    | fallback => exact (hc.enters hb).elim

theorem Course.rescued_at (h : Course settings (.action levels frame a) es r) {entry : Entry}
    (he : entry ∈ entriesAt place es) {value : Json} {e : ActionError}
    (hvalue : entry.outcome = .rescued value e) :
    value = lastValue (entriesAt (place ++ [.fallback entry.index]) es) .null := by
  obtain ⟨fs, hcomes, hnotes⟩ := h.comes_at he
  obtain ⟨levels, frame, steps, progress, after, gs, hc, hgs⟩ := hcomes.rescue value e hvalue
  have hinner : entriesAt (place ++ [.fallback entry.index]) es = entriesAt [] gs := by
    refine told_congr ((newsAt_of_notesAt hnotes _).trans ?_)
    exact newsAt_of_notesAt_own hgs
  rw [hinner, entriesAt_nil]
  exact hc.values after value rfl

theorem Course.succeeded_at (h : Course settings (.action levels frame a) es r) {entry : Entry}
    (he : entry ∈ entriesAt place es) {value : Json} (hvalue : entry.outcome = .succeeded value)
    {b : Action} {f : Frame}
    (hb : .entered b f ∈ newsAt (place ++ [.attempt entry.index entry.attempts]) es) :
    b.Yields settings.limits f (.ofList (writesOf b.steps
      (notesAt (place ++ [.attempt entry.index entry.attempts]) (notesOf es)))) value := by
  obtain ⟨fs, hcomes, hnotes⟩ := h.comes_at he
  obtain ⟨levels, frame, step, args, gs, hc, hgs⟩ := hcomes.own value hvalue
  rw [notesAt_place_append, hnotes]
  rw [newsAt_of_notesAt hnotes] at hb
  have hinner : notesAt [.attempt entry.index entry.attempts] (notesOf fs) = notesOf gs := hgs
  rw [newsAt_of_notesAt_own hinner] at hb
  rw [hinner]
  exact (hc.recalls b f hb).yields value rfl

end

/-- What the report of a run and its events say of the values that steps record. -/
structure Report.Remembers (report : Report) (settings : Settings) (a : Action)
    (params env : Json) (es : List Event) : Prop where
  /-- A step sees what the steps before it in the same action recorded, the last of each name. -/
  scopes : ∀ place b f, .entered b f ∈ newsAt place es → ∀ before n rest,
    notesAt place (notesOf es) = before ++ n :: rest →
      n.Sees settings.limits f b.steps (.ofList (writesOf b.steps before)) rest
  /-- A step is recorded after all that happens inside of it. -/
  order : (notesOf es).Pairwise Note.Precedes
  rescued : ∀ place entry value e, entry ∈ entriesAt place es →
    entry.outcome = .rescued value e →
      value = lastValue (entriesAt (place ++ [.fallback entry.index]) es) .null
  /-- A step that runs another action has the value that the action comes to. -/
  nested : ∀ place entry value b f, entry ∈ entriesAt place es →
    entry.outcome = .succeeded value →
      let inner := place ++ [.attempt entry.index entry.attempts]
      .entered b f ∈ newsAt inner es →
        b.Yields settings.limits f (.ofList (writesOf b.steps (notesAt inner (notesOf es)))) value
  succeeded : ∀ value, report.result = .ok value → ∃ frame,
    Frame.root settings.registry a params env = .ok frame ∧ .entered a frame ∈ newsAt [] es ∧
      a.Yields settings.limits frame (.ofList (writesOf a.steps (notesOf es))) value

theorem Report.Remembers.of_course {report : Report} {settings : Settings} {a : Action}
    {params env : Json} {es : List Event} {levels : Nat} {frame : Frame}
    {r : Option (Outcome Json)} (h : Course settings (.action levels frame a) es r)
    (root : Frame.root settings.registry a params env = .ok frame)
    (result : ∀ value, report.result = .ok value → r = some (.ok value)) :
    report.Remembers settings a params env es where
  scopes place b f hb before n rest hsplit := by
    have hrecalls := h.recalls_at hb
    rw [hsplit] at hrecalls
    exact hrecalls.sees
  order := h.ordered
  rescued place entry value e he hvalue := h.rescued_at he hvalue
  nested place entry value b f he hvalue := h.succeeded_at he hvalue
  succeeded value hvalue := by
    have hentered := h.tells.1
    exact ⟨frame, root, hentered, (h.recalls a frame hentered).yields value (result value hvalue)⟩

variable {σ : Type}

/--
A step of a run sees the values that the steps before it in the same action recorded, and the action
ends with those of all its steps: the values of the steps that succeeded, in one of their attempts
or by their fallback lists, under the names that the steps have for them.
-/
theorem execute_remembers (settings : Settings) (page : Page σ) (state : σ)
    (cancellation : Cancellation) (a : Action) (params env : Json) :
    (execute settings page state cancellation a params env).1.Remembers settings a params env
      (eventsOf (history settings page state cancellation a params env)) := by
  have hgoes := execute_goes settings page state cancellation a params env
  cases hgoes with
  | unbound root events reported =>
    rw [events, reported]
    exact ⟨by simp, .nil, by simp, by simp, by simp⟩
  | ended root course result trace =>
    refine .of_course course root fun value hvalue => ?_
    rw [← result, hvalue]
  | interrupted root course stops ledger result trace =>
    refine .of_course course root fun value hvalue => ?_
    cases result.symm.trans hvalue

end PageFlow
