import Mathlib.Data.List.Induction
import PageFlow.Proofs.Run.Course

namespace PageFlow

open Event (here)

def notesOf (es : List Event) : List Note :=
  es.filterMap fun
    | .noted n => some n
    | .sent _ => none

/-- The note as it looks from inside of a turn, if it comes from there. -/
def Note.under? (turn : Turn) : Note → Option Note
  | ⟨news, t :: place⟩ => if t = turn then some ⟨news, place⟩ else none
  | ⟨_, []⟩ => none

/-- The notes that come from inside of a turn. -/
def under (turn : Turn) (ns : List Note) : List Note :=
  ns.filterMap (Note.under? turn)

def notesAt : Place → List Note → List Note
  | [], ns => ns
  | turn :: place, ns => notesAt place (under turn ns)

def Note.own? : Note → Option News
  | ⟨news, []⟩ => some news
  | _ => none

def newsAt (place : Place) (es : List Event) : List News :=
  (notesAt place (notesOf es)).filterMap Note.own?

section

variable (turn : Turn) (place : Place) (ns ms : List Note) (es fs : List Event)

@[simp] theorem notesOf_nil : notesOf [] = [] := rfl

@[simp] theorem notesOf_append : notesOf (es ++ fs) = notesOf es ++ notesOf fs :=
  List.filterMap_append

@[simp] theorem notesOf_here (news : News) : notesOf (here news :: es) = { news } :: notesOf es :=
  rfl

@[simp] theorem notesOf_sent (calls : List Call) : notesOf (calls.map Event.sent) = [] := by
  simp [notesOf]

@[simp] theorem notesOf_inside :
    notesOf (es.map (Event.inside turn)) = (notesOf es).map (Note.inside turn) := by
  induction es with
  | nil => rfl
  | cons e es ih =>
    cases e with
    | sent c => exact ih
    | noted n => exact congrArg (n.inside turn :: ·) ih

@[simp] theorem under_nil : under turn [] = [] := rfl

@[simp] theorem under_append : under turn (ns ++ ms) = under turn ns ++ under turn ms :=
  List.filterMap_append

@[simp] theorem under_here (news : News) : under turn ({ news } :: ns) = under turn ns := rfl

@[simp] theorem under_inside : under turn (ns.map (Note.inside turn)) = ns := by
  induction ns with
  | nil => rfl
  | cons n ns ih =>
    unfold under at ih ⊢
    simp [Note.under?, Note.inside, ih]

theorem under_other {turn other : Turn} (h : other ≠ turn) :
    under turn (ns.map (Note.inside other)) = [] := by
  rw [under, List.filterMap_eq_nil_iff]
  intro n hn
  obtain ⟨n, -, rfl⟩ := List.mem_map.1 hn
  exact if_neg h

@[simp] theorem notesAt_nil : notesAt place [] = [] := by
  induction place with
  | nil => rfl
  | cons turn place ih => exact ih

@[simp] theorem notesAt_append :
    notesAt place (ns ++ ms) = notesAt place ns ++ notesAt place ms := by
  induction place generalizing ns ms with
  | nil => rfl
  | cons turn place ih => rw [notesAt, under_append, ih]; rfl

theorem notesAt_place_append (rest : Place) :
    notesAt (place ++ rest) ns = notesAt rest (notesAt place ns) := by
  induction place generalizing ns with
  | nil => rfl
  | cons turn place ih => exact ih _

@[simp] theorem newsAt_nil : newsAt place [] = [] := by
  simp [newsAt]

@[simp] theorem newsAt_append : newsAt place (es ++ fs) = newsAt place es ++ newsAt place fs := by
  simp [newsAt]

@[simp] theorem newsAt_sent (calls : List Call) : newsAt place (calls.map Event.sent) = [] := by
  simp [newsAt]

@[simp] theorem newsAt_here (news : News) : newsAt [] (here news :: es) = news :: newsAt [] es :=
  rfl

@[simp] theorem newsAt_turn_here (news : News) :
    newsAt (turn :: place) (here news :: es) = newsAt (turn :: place) es :=
  rfl

@[simp] theorem newsAt_inside :
    newsAt (turn :: place) (es.map (Event.inside turn)) = newsAt place es := by
  simp [newsAt, notesAt]

theorem newsAt_other {turn other : Turn} (h : other ≠ turn) :
    newsAt (turn :: place) (es.map (Event.inside other)) = [] := by
  simp [newsAt, notesAt, under_other _ h]

@[simp] theorem newsAt_inside_nil : newsAt [] (es.map (Event.inside turn)) = [] := by
  rw [newsAt, notesAt, notesOf_inside, List.filterMap_eq_nil_iff]
  intro n hn
  obtain ⟨n, -, rfl⟩ := List.mem_map.1 hn
  rfl

theorem newsAt_of_under {turn : Turn} {es : List Event} (h : under turn (notesOf es) = []) :
    newsAt (turn :: place) es = [] := by
  rw [newsAt, notesAt, h, notesAt_nil, List.filterMap_nil]

theorem newsAt_of_notesAt_own {place : Place} {es fs : List Event}
    (h : notesAt place (notesOf es) = notesOf fs) : newsAt place es = newsAt [] fs :=
  congrArg (List.filterMap Note.own?) h

theorem newsAt_of_notesAt {place : Place} {es fs : List Event}
    (h : notesAt place (notesOf es) = notesOf fs) (rest : Place) :
    newsAt (place ++ rest) es = newsAt rest fs := by
  rw [newsAt, notesAt_place_append, h, newsAt]

end

def Turn.index : Turn → Nat
  | attempt index _ | fallback index => index

def News.index? : News → Option Nat
  | begun index _ _ | dispatched index _ | attempted index _ => some index
  | recorded entry => some entry.index
  | entered .. | raised _ => none

/-- The index of the step that a note is about, where it comes from or further out. -/
def Note.index? : Note → Option Nat
  | ⟨news, []⟩ => news.index?
  | ⟨_, turn :: _⟩ => some turn.index

/-- What a part of a run can report of the steps that it runs. -/
def Part.Covers : Part → Note → Prop
  | steps _ _ index _ _ _, n => ∀ i ∈ n.index?, index ≤ i
  | step _ _ index _ _, n => ∀ i ∈ n.index?, i = index
  | attempts _ _ index _ _ _ count, n =>
    (∀ i ∈ n.index?, i = index) ∧ ∀ t ∈ n.place.head?, ∃ c, count ≤ c ∧ t = .attempt index c
  | ending _ _ index _ _ _ _, n =>
    (∀ i ∈ n.index?, i = index) ∧ ∀ t ∈ n.place.head?, t = .fallback index
  | action .., _ | bounded .., _ | dispatch .., _ => True

theorem Event.noted_mem_inside {turn : Turn} {n : Note} {es : List Event}
    (h : .noted n ∈ es.map (Event.inside turn)) :
    n.place.head? = some turn ∧ n.index? = some turn.index := by
  obtain ⟨e, -, he⟩ := List.mem_map.1 h
  cases e with
  | sent c => cases he
  | noted m => cases he; exact ⟨rfl, rfl⟩

namespace Part

variable {levels : Nat} {frame : Frame} {index : Nat} {step : Step} {args : Table Json}
  {n : Note} {es : List Event}

theorem covers_attempt {left count c : Nat} (hc : count ≤ c)
    (h : .noted n ∈ es.map (Event.inside (.attempt index c))) :
    (attempts levels frame index step args left count).Covers n := by
  obtain ⟨hhead, hindex⟩ := Event.noted_mem_inside h
  simp [Covers, hhead, hindex, Turn.index, hc]

theorem covers_fallback {progress : Progress} {ended : Attempted}
    (h : .noted n ∈ es.map (Event.inside (.fallback index))) :
    (ending levels frame index step args progress ended).Covers n := by
  obtain ⟨hhead, hindex⟩ := Event.noted_mem_inside h
  simp [Covers, hhead, hindex, Turn.index]

end Part

theorem Course.covers {settings : Settings} {part : Part} {es : List Event}
    {r : Option part.Result} (h : Course settings part es r) :
    ∀ n, .noted n ∈ es → part.Covers n := by
  induction h with
  | actionCut | actionFails | actionRefused | actionDone => exact fun n _ => trivial
  | inTime | timedOut | refused | tooDeep | noTarget | ran | onPage | pageFails =>
    exact fun n _ => trivial
  | noSteps => simp
  | stepCut head ih | stepFails head ih =>
    intro n hn i hi
    exact Nat.le_of_eq (ih n hn i hi).symm
  | stepDone head tail ihHead ihTail =>
    intro n hn i hi
    rcases List.mem_append.1 hn with hn | hn
    · exact Nat.le_of_eq (ihHead n hn i hi).symm
    · exact Nat.le_of_succ_le (ihTail n hn i hi)
  | halted | overLimit => simp [Part.Covers, Note.index?, News.index?]
  | skipped | broken =>
    simp [Part.Covers, Note.index?, News.index?, Step.unattempted]
  | attemptsCut room runs tries ih =>
    intro n hn i hi
    simp only [List.mem_cons, Event.noted.injEq] at hn
    rcases hn with rfl | rfl | hn
    · exact (Option.some.inj hi).symm
    · exact (Option.some.inj hi).symm
    · exact (ih n hn).1 i hi
  | attempted room runs tries ending ihTries ihEnding =>
    intro n hn i hi
    simp only [List.mem_cons, List.mem_append, Event.noted.injEq] at hn
    rcases hn with rfl | rfl | hn | hn
    · exact (Option.some.inj hi).symm
    · exact (Option.some.inj hi).symm
    · exact (ihTries n hn).1 i hi
    · exact (ihEnding n hn).1 i hi
  | succeeded | aborted | ignored =>
    simp [Part.Covers, Note.index?, News.index?, Step.entry]
  | rescueCut result mild policy rescue ih =>
    exact fun n hn => Part.covers_fallback hn
  | rescued result mild policy rescue ih | unrescued result mild policy rescue ih =>
    intro n hn
    rcases List.mem_append.1 hn with hn | hn
    · exact Part.covers_fallback hn
    · cases List.mem_singleton.1 hn
      simp [Part.Covers, Note.index?, News.index?, Step.entry]
  | attemptCut once ih | attemptLast once last ih | pauseCut once mild ih =>
    intro n hn
    rcases List.mem_cons.1 hn with hn | hn
    · cases hn
      simp [Part.Covers, Note.index?, News.index?]
    · exact Part.covers_attempt (Nat.le_refl _) hn
  | pauseHalted once mild halted ih =>
    intro n hn
    simp only [List.mem_cons, List.mem_append, Event.noted.injEq, List.not_mem_nil, or_false] at hn
    rcases hn with rfl | hn | rfl
    · simp [Part.Covers, Note.index?, News.index?]
    · exact Part.covers_attempt (Nat.le_refl _) hn
    · simp [Part.Covers, Note.index?, News.index?]
  | again once mild others ihOnce ihOthers =>
    intro n hn
    simp only [List.mem_cons, List.mem_append, Event.noted.injEq] at hn
    rcases hn with rfl | hn | hn
    · simp [Part.Covers, Note.index?, News.index?]
    · exact Part.covers_attempt (Nat.le_refl _) hn
    · obtain ⟨hindex, hhead⟩ := ihOthers n hn
      refine ⟨hindex, fun t ht => ?_⟩
      obtain ⟨c, hc, rfl⟩ := hhead t ht
      exact ⟨c, Nat.le_of_succ_le hc, rfl⟩

theorem mem_notesOf {n : Note} {es : List Event} : n ∈ notesOf es ↔ .noted n ∈ es := by
  rw [notesOf]
  rw [List.mem_filterMap]
  constructor
  · rintro ⟨e, he, hn⟩
    cases e with
    | sent c => cases hn
    | noted m => cases hn; exact he
  · exact fun h => ⟨_, h, rfl⟩

theorem under_eq_nil {turn : Turn} {es : List Event}
    (h : ∀ n, .noted n ∈ es → n.place.head? ≠ some turn) : under turn (notesOf es) = [] := by
  rw [under, List.filterMap_eq_nil_iff]
  rintro ⟨news, place⟩ hn
  cases place with
  | nil => rfl
  | cons t place => exact if_neg fun ht => h _ (mem_notesOf.1 hn) (congrArg some ht)

namespace Part

def depth : Part → Nat
  | action _ frame _ | steps _ frame _ _ _ _ | step _ frame _ _ _ | attempts _ frame _ _ _ _ _
    | ending _ frame _ _ _ _ _ => frame.depth
  | bounded _ frame _ _ _ | dispatch _ frame _ _ _ => frame.depth + 1

/-- The depth of the deepest action that the part can enter. -/
def deepest : Part → Nat
  | action levels frame _ | steps levels frame _ _ _ _ | step levels frame _ _ _
    | attempts levels frame _ _ _ _ _ | ending levels frame _ _ _ _ _ | bounded levels frame _ _ _
    | dispatch levels frame _ _ _ => frame.depth + levels

/-- The step that the part goes on with. -/
def Resumes : Part → Nat → Step → Prop
  | attempts _ _ i s _ _ _, j, t | ending _ _ i s _ _ _, j, t => j = i ∧ t = s
  | _, _, _ => False

def Works (part : Part) (own : List News) (index : Nat) (step : Step) : Prop :=
  part.Resumes index step ∨ ∃ progress, .begun index step progress ∈ own

/-- The part that runs inside of a turn: an attempt at a step at work, or its fallback list. -/
inductive Holds (part : Part) (own : List News) : Turn → Part → Prop
  | attempt {index count : Nat} {step : Step} {levels : Nat} {frame : Frame} {args : Table Json}
    (works : part.Works own index step) (depth : frame.depth = part.depth)
    (deepest : frame.depth + levels = part.deepest) :
    Holds part own (.attempt index count) (bounded levels frame index step args)
  | fallback {index : Nat} {step : Step} {levels : Nat} {frame : Frame} {progress : Progress}
    (works : part.Works own index step) (depth : frame.depth = part.depth)
    (deepest : frame.depth + levels = part.deepest) :
    Holds part own (.fallback index) (steps levels frame 0 step.fallback progress .null)

theorem works_of_begun {part : Part} {own : List News} {index : Nat} {step : Step}
    {progress : Progress} (h : .begun index step progress ∈ own) (i : Nat) (s : Step)
    (heq : i = index ∧ s = step) : part.Works own i s := by
  obtain ⟨rfl, rfl⟩ := heq
  exact .inr ⟨progress, h⟩

theorem Holds.mono {part whole inner : Part} {own news : List News} {turn : Turn}
    (h : part.Holds own turn inner) (hd : part.depth = whole.depth)
    (htop : part.deepest = whole.deepest)
    (hworks : ∀ index step, part.Works own index step → whole.Works news index step) :
    whole.Holds news turn inner := by
  cases h with
  | attempt works depth deepest =>
    exact .attempt (hworks _ _ works) (depth.trans hd) (deepest.trans htop)
  | fallback works depth deepest =>
    exact .fallback (hworks _ _ works) (depth.trans hd) (deepest.trans htop)

/-- What comes from inside of a turn, if anything does, is the course of a part of its own. -/
def Opens (settings : Settings) (part : Part) (es : List Event) (turn : Turn) : Prop :=
  under turn (notesOf es) = [] ∨ ∃ inner fs r, Course settings inner fs r ∧
    part.Holds (newsAt [] es) turn inner ∧ under turn (notesOf es) = notesOf fs

namespace Opens

variable {settings : Settings} {part whole inner : Part} {es fs : List Event}

theorem of_nil {turn : Turn} (h : under turn (notesOf es) = []) : part.Opens settings es turn :=
  .inl h

theorem mono {turn : Turn} (h : part.Opens settings es turn) (hd : part.depth = whole.depth)
    (htop : part.deepest = whole.deepest)
    (hresumes : ∀ index step, part.Resumes index step → whole.Works (newsAt [] fs) index step)
    (hown : ∀ news ∈ newsAt [] es, news ∈ newsAt [] fs)
    (hunder : under turn (notesOf fs) = under turn (notesOf es)) :
    whole.Opens settings fs turn := by
  rcases h with h | ⟨inner, gs, r, hc, hh, hg⟩
  · exact .inl (hunder.trans h)
  refine .inr ⟨inner, gs, r, hc, hh.mono hd htop ?_, hunder.trans hg⟩
  rintro index step (hr | ⟨progress, hb⟩)
  · exact hresumes index step hr
  · exact .inr ⟨progress, hown _ hb⟩

theorem of_course {r : Option inner.Result} {own : Turn} (h : Course settings inner fs r)
    (hh : part.Holds (newsAt [] es) own inner)
    (hunder : ∀ turn, under turn (notesOf es) = under turn ((notesOf fs).map (Note.inside own)))
    (turn : Turn) : part.Opens settings es turn := by
  by_cases ht : own = turn
  · subst ht
    exact .inr ⟨inner, fs, r, h, hh, by rw [hunder, under_inside]⟩
  · exact .inl (by rw [hunder, under_other _ ht])

variable {levels : Nat} {frame : Frame} {index : Nat} {step : Step} {args : Table Json}

theorem of_attempt {left count : Nat} {r : Option (Outcome Json)}
    (h : Course settings (.bounded levels frame index step args) fs r)
    (hunder : ∀ turn, under turn (notesOf es) =
      under turn ((notesOf fs).map (Note.inside (.attempt index count)))) (turn : Turn) :
    (attempts levels frame index step args left count).Opens settings es turn := by
  have hh : (attempts levels frame index step args left count).Holds (newsAt [] es)
      (.attempt index count) (bounded levels frame index step args) :=
    .attempt (.inl ⟨rfl, rfl⟩) rfl rfl
  exact of_course h hh hunder turn

theorem of_fallback {progress progress' : Progress} {ended : Attempted}
    {r : Option (Outcome (Progress × Json))}
    (h : Course settings (.steps levels frame 0 step.fallback progress .null) fs r)
    (hunder : ∀ turn, under turn (notesOf es) =
      under turn ((notesOf fs).map (Note.inside (.fallback index)))) (turn : Turn) :
    (ending levels frame index step args progress' ended).Opens settings es turn := by
  have hh : (ending levels frame index step args progress' ended).Holds (newsAt [] es)
      (.fallback index) (steps levels frame 0 step.fallback progress .null) :=
    .fallback (.inl ⟨rfl, rfl⟩) rfl rfl
  exact of_course h hh hunder turn

end Opens

end Part

theorem Course.attempts_outside {settings : Settings} {levels : Nat} {frame : Frame} {index : Nat}
    {step : Step} {args : Table Json} {left count : Nat} {es : List Event} {r : Option Attempted}
    (h : Course settings (.attempts levels frame index step args left count) es r) (turn : Turn)
    (ht : ∀ c, count ≤ c → turn ≠ .attempt index c) : under turn (notesOf es) = [] := by
  apply under_eq_nil
  intro n hn hp
  obtain ⟨c, hc, rfl⟩ := (h.covers n hn).2 turn hp
  exact ht c hc rfl

theorem Course.ending_outside {settings : Settings} {levels : Nat} {frame : Frame} {index : Nat}
    {step : Step} {args : Table Json} {progress : Progress} {ended : Attempted} {es : List Event}
    {r : Option (Outcome (Progress × Option Json))}
    (h : Course settings (.ending levels frame index step args progress ended) es r) {turn : Turn}
    (ht : turn ≠ .fallback index) : under turn (notesOf es) = [] :=
  under_eq_nil fun n hn hp => ht ((h.covers n hn).2 turn hp)

/-- Nothing is told of the step with an index. -/
def Silent (index : Nat) (es : List Event) : Prop :=
  ∀ n, .noted n ∈ es → n.index? ≠ some index

theorem Silent.under {turn : Turn} {es : List Event} (h : Silent turn.index es) :
    under turn (notesOf es) = [] := by
  refine under_eq_nil fun n hn hp => h n hn ?_
  obtain ⟨news, place⟩ := n
  cases place with
  | nil => cases hp
  | cons t place => cases hp; rfl

theorem Course.step_silent {settings : Settings} {levels : Nat} {frame : Frame} {index : Nat}
    {step : Step} {progress : Progress} {es : List Event}
    {r : Option (Outcome (Progress × Option Json))}
    (h : Course settings (.step levels frame index step progress) es r) {i : Nat} (hi : i ≠ index) :
    Silent i es :=
  fun n hn heq => hi (h.covers n hn i heq)

theorem Course.steps_silent {settings : Settings} {levels : Nat} {frame : Frame} {index : Nat}
    {steps : List Step} {progress : Progress} {last : Json} {es : List Event}
    {r : Option (Outcome (Progress × Json))}
    (h : Course settings (.steps levels frame index steps progress last) es r) {i : Nat}
    (hi : i < index) : Silent i es :=
  fun n hn heq => Nat.not_le_of_lt hi (h.covers n hn i heq)

/-- The turns of a course are courses. -/
theorem Course.opens {settings : Settings} {part : Part} {es : List Event} {r : Option part.Result}
    (h : Course settings part es r) (turn : Turn) : part.Opens settings es turn := by
  induction h with
  | actionCut steps ih | actionFails steps ih | actionRefused steps refused ih
    | actionDone steps concluded ih =>
    exact ih.mono rfl rfl (fun _ _ h => h.elim) (by simp +contextual) (by simp)
  | noSteps | halted | overLimit | skipped | broken | succeeded | aborted | ignored | refused
    | tooDeep | noTarget | onPage | pageFails =>
    exact .of_nil (by simp)
  | stepCut head ih | stepFails head ih =>
    exact ih.mono rfl rfl (fun _ _ h => h.elim) (by simp +contextual) (by simp)
  | @stepDone _ _ index step rest _ _ es _ _ fs _ head tail ihHead ihTail =>
    by_cases ht : turn.index = index
    · refine ihHead.mono rfl rfl (fun _ _ h => h.elim) (by simp +contextual) ?_
      have hout : turn.index < index + 1 := by omega
      simp [(tail.steps_silent hout).under]
    · refine ihTail.mono rfl rfl (fun _ _ h => h.elim) (by simp +contextual) ?_
      simp [(head.step_silent ht).under]
  | attemptsCut room runs tries ih =>
    exact ih.mono rfl rfl (Part.works_of_begun List.mem_cons_self) (by simp +contextual) (by simp)
  | @attempted _ _ index _ _ _ _ _ _ _ room runs tries ending ihTries ihEnding =>
    by_cases ht : turn = .fallback index
    · refine ihEnding.mono rfl rfl (Part.works_of_begun List.mem_cons_self) (by simp +contextual) ?_
      simp [tries.attempts_outside turn fun c _ => by simp [ht]]
    · refine ihTries.mono rfl rfl (Part.works_of_begun List.mem_cons_self) (by simp +contextual) ?_
      simp [ending.ending_outside ht]
  | rescueCut result mild policy rescue ih | rescued result mild policy rescue ih
    | unrescued result mild policy rescue ih =>
    exact .of_fallback rescue (by simp) turn
  | attemptCut once ih | attemptLast once last ih | pauseCut once mild ih
    | pauseHalted once mild halted ih =>
    exact .of_attempt once (by simp) turn
  | @again _ _ index _ _ _ count _ _ _ _ once mild others ihOnce ihOthers =>
    by_cases ht : .attempt index count = turn
    · subst ht
      have hout := others.attempts_outside (.attempt index count) fun c hc h => by
        cases h
        omega
      exact .inr ⟨_, _, _, once, .attempt (.inl ⟨rfl, rfl⟩) rfl rfl, by simp [hout]⟩
    · refine ihOthers.mono rfl rfl (fun _ _ h => .inl h) (by simp +contextual) ?_
      simp [under_other _ ht]
  | inTime work ih => exact ih.mono rfl rfl (fun _ _ h => h.elim) (by simp +contextual) (by simp)
  | timedOut work bound raised ih =>
    exact ih.mono rfl rfl (fun _ _ h => h.elim) (by simp +contextual) (by simp)
  | ran task target body ih =>
    refine ih.mono ?_ ?_ (fun _ _ h => h.elim) (by simp +contextual) (by simp)
    · rfl
    · simp only [Part.deepest, Frame.child, Frame.ofAction]
      omega

/-- The part of a run that is at a place, where `es` are the events of the run. -/
inductive Part.At (es : List Event) (root : Part) : Place → Part → Prop
  | root : At es root [] root
  | turn {place : Place} {turn : Turn} {outer inner : Part} (outside : At es root place outer)
    (holds : outer.Holds (newsAt place es) turn inner) : At es root (place ++ [turn]) inner

/-- What comes from a place, if anything does, is the course of the part at the place. -/
theorem Course.at_place {settings : Settings} {part : Part} {es : List Event}
    {r : Option part.Result} (h : Course settings part es r) (place : Place) :
    notesAt place (notesOf es) = [] ∨ ∃ inner fs r, Course settings inner fs r ∧
      part.At es place inner ∧ notesAt place (notesOf es) = notesOf fs := by
  induction place using List.reverseRecOn with
  | nil => exact .inr ⟨part, es, r, h, .root, rfl⟩
  | append_singleton place turn ih =>
    rw [notesAt_place_append]
    rcases ih with hnone | ⟨outer, fs, r, hc, hat, hfs⟩
    · exact .inl (by rw [hnone, notesAt_nil])
    rw [hfs]
    rcases hc.opens turn with hnone | ⟨inner, gs, r, hc, hh, hgs⟩
    · exact .inl hnone
    have hown := newsAt_of_notesAt_own hfs
    exact .inr ⟨inner, gs, r, hc, .turn hat (hown ▸ hh), hgs⟩

def Place.depth (place : Place) : Nat :=
  place.countP fun
    | .attempt .. => true
    | .fallback _ => false

namespace Part.At

variable {es : List Event} {root part : Part} {place : Place}

theorem depth (h : root.At es place part) : part.depth = root.depth + place.depth := by
  induction h with
  | root => rfl
  | turn outside holds ih =>
    rw [Place.depth, List.countP_append, ← Place.depth, ← Nat.add_assoc, ← ih]
    cases holds with
    | attempt works depth => exact congrArg (· + 1) depth
    | fallback works depth => exact depth

theorem deepest (h : root.At es place part) : part.deepest = root.deepest := by
  induction h with
  | root => rfl
  | turn outside holds ih =>
    rw [← ih]
    cases holds with
    | attempt works depth deepest => exact deepest
    | fallback works depth deepest => exact deepest

end Part.At

end PageFlow
