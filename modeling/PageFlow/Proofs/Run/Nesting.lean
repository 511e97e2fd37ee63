import PageFlow.Proofs.Run.Callers
import PageFlow.Proofs.Run.Place

namespace PageFlow

open Event (here)

theorem mem_newsAt {news : News} {place : Place} {es : List Event} :
    news ∈ newsAt place es ↔ .noted ⟨news, place⟩ ∈ es := by
  have hmem : ∀ (place : Place) (ns : List Note),
      news ∈ (notesAt place ns).filterMap Note.own? ↔ ⟨news, place⟩ ∈ ns := by
    intro place
    induction place with
    | nil =>
      intro ns
      rw [notesAt, List.mem_filterMap]
      constructor
      · rintro ⟨⟨news', place⟩, hn, howned⟩
        cases place <;> cases howned
        exact hn
      · exact fun hn => ⟨_, hn, rfl⟩
    | cons turn place ih =>
      intro ns
      rw [notesAt, ih, under, List.mem_filterMap]
      constructor
      · rintro ⟨⟨news', place'⟩, hn, hunder⟩
        cases place' with
        | nil => cases hunder
        | cons t place' =>
          obtain ⟨rfl, ⟨⟩⟩ := Option.ite_none_right_eq_some.1 hunder
          exact hn
      · exact fun hn => ⟨_, hn, if_pos rfl⟩
  rw [newsAt, hmem, mem_notesOf]

theorem Event.noted_mem_inside_iff {turn : Turn} {news : News} {place : Place} {es : List Event} :
    .noted ⟨news, place⟩ ∈ es.map (Event.inside turn) ↔
      ∃ rest, place = turn :: rest ∧ .noted ⟨news, rest⟩ ∈ es := by
  rw [List.mem_map]
  constructor
  · rintro ⟨e, he, heq⟩
    cases e with
    | sent c => cases heq
    | noted n =>
      cases heq
      exact ⟨n.place, rfl, he⟩
  · rintro ⟨rest, rfl, he⟩
    exact ⟨_, he, rfl⟩

@[simp] theorem Place.depth_attempt (index count : Nat) (place : Place) :
    Place.depth (.attempt index count :: place) = place.depth + 1 := by
  simp [Place.depth]

@[simp] theorem Place.depth_fallback (index : Nat) (place : Place) :
    Place.depth (.fallback index :: place) = place.depth := by
  simp [Place.depth]

/--
A step that has begun in the frame, in the list of its action or in a fallback list, runs an action
in the child of the frame.
-/
def Frame.Spawns (frame : Frame) (settings : Settings) (es : List Event) (list : Place)
    (index : Nat) (a : Action) (f : Frame) : Prop :=
  ∃ step progress args bound, .noted ⟨.begun index step progress, list⟩ ∈ es ∧
    step.Runs settings.limits (frame.vars progress.begin) args ∧
    step.Calls settings frame index args a bound ∧ f = frame.child settings.registry a bound

/-- An action that is entered inside of an attempt in the frame, at any depth. -/
structure Frame.Contains (frame : Frame) (settings : Settings) (es : List Event) (place : Place)
    (a : Action) (f : Frame) : Prop where
  inside : 0 < place.depth
  made : ∃ bound, f = .ofAction settings.registry a (frame.depth + place.depth) bound frame.env
  spawned : place.depth = 1 → ∃ list index count, place = list ++ [.attempt index count] ∧
    list.depth = 0 ∧ frame.Spawns settings es list index a f

def Frame.ContainsAll (frame : Frame) (settings : Settings) (es : List Event) : Prop :=
  ∀ place a f, .noted ⟨.entered a f, place⟩ ∈ es → frame.Contains settings es place a f

def Frame.Holds (frame : Frame) (settings : Settings) (a : Action) (es : List Event) : Prop :=
  ∀ place b f, .noted ⟨.entered b f, place⟩ ∈ es →
    (place = [] ∧ b = a ∧ f = frame) ∨ frame.Contains settings es place b f

/-- What is entered among the events of attempts at a step with the given arguments. -/
def Frame.Tries (frame : Frame) (settings : Settings) (index : Nat) (step : Step)
    (args : Table Json) (es : List Event) : Prop :=
  ∀ (place : Place) a f, .noted ⟨.entered a f, place⟩ ∈ es → 0 < place.depth ∧
    (∃ bound, f = .ofAction settings.registry a (frame.depth + place.depth) bound frame.env) ∧
    (place.depth = 1 → ∃ count bound, place = [.attempt index count] ∧
      step.Calls settings frame index args a bound ∧ f = frame.child settings.registry a bound)

def Unentered (es : List Event) : Prop :=
  ∀ place a f, .noted ⟨.entered a f, place⟩ ∉ es

def Part.Nests (settings : Settings) : Part → List Event → Prop
  | action _ frame a, es => frame.Holds settings a es
  | steps _ frame .., es | step _ frame .., es | ending _ frame .., es =>
    frame.ContainsAll settings es
  | attempts _ frame index s args .., es => frame.Tries settings index s args es
  | bounded _ frame index s args, es | dispatch _ frame index s args, es =>
    Unentered es ∨ ∃ a bound, s.Calls settings frame index args a bound ∧
      (frame.child settings.registry a bound).Holds settings a es

section

variable {settings : Settings} {frame f : Frame} {a : Action} {place : Place} {es fs : List Event}
  {news : News}

theorem Unentered.cons (hnews : ∀ a f, news ≠ .entered a f) (h : Unentered es) :
    Unentered (here news :: es) := by
  intro place a f hmem
  cases hmem with
  | head => exact hnews a f rfl
  | tail _ hmem => exact h place a f hmem

theorem Unentered.nil : Unentered [] :=
  fun _ _ _ => List.not_mem_nil

theorem Unentered.raised (e : ActionError) : Unentered [here (.raised e)] :=
  .cons nofun .nil

theorem Unentered.recorded (entry : Entry) : Unentered [here (.recorded entry)] :=
  .cons nofun .nil

theorem Unentered.append (h : Unentered es) (ht : Unentered fs) : Unentered (es ++ fs) := by
  intro place a f hmem
  exact (List.mem_append.1 hmem).elim (h place a f) (ht place a f)

theorem Unentered.sent (calls : List Call) : Unentered (calls.map Event.sent) := by
  intro place a f hmem
  obtain ⟨c, -, hc⟩ := List.mem_map.1 hmem
  cases hc

theorem Frame.Contains.mono (h : frame.Contains settings es place a f)
    (hsub : ∀ e ∈ es, e ∈ fs) : frame.Contains settings fs place a f where
  inside := h.inside
  made := h.made
  spawned hdepth := by
    obtain ⟨list, index, count, hplace, hlist, step, progress, args, bound, hbegun, hspawns⟩ :=
      h.spawned hdepth
    exact ⟨list, index, count, hplace, hlist, step, progress, args, bound, hsub _ hbegun, hspawns⟩

namespace Frame.ContainsAll

theorem of_unentered (h : Unentered es) : frame.ContainsAll settings es :=
  fun place a f hmem => (h place a f hmem).elim

theorem append (h : frame.ContainsAll settings es) (ht : frame.ContainsAll settings fs) :
    frame.ContainsAll settings (es ++ fs) := by
  intro place a f hmem
  obtain hmem | hmem := List.mem_append.1 hmem
  · exact (h place a f hmem).mono fun e he => List.mem_append_left fs he
  · exact (ht place a f hmem).mono fun e he => List.mem_append_right es he

theorem cons (hnews : ∀ a f, news ≠ .entered a f) (h : frame.ContainsAll settings es) :
    frame.ContainsAll settings (here news :: es) :=
  append (of_unentered (.cons hnews .nil)) h

theorem fallback (h : frame.ContainsAll settings es) (i : Nat) :
    frame.ContainsAll settings (es.map (Event.inside (.fallback i))) := by
  intro place a f hmem
  obtain ⟨rest, rfl, hinner⟩ := Event.noted_mem_inside_iff.1 hmem
  obtain ⟨hinside, hmade, hspawned⟩ := h rest a f hinner
  rw [← Place.depth_fallback i rest] at hinside hmade hspawned
  refine ⟨hinside, hmade, fun hdepth => ?_⟩
  obtain ⟨list, index, count, rfl, hlist, step, progress, args, bound, hbegun, hspawns⟩ :=
    hspawned hdepth
  have hlist' : Place.depth (.fallback i :: list) = 0 := (Place.depth_fallback i list).trans hlist
  exact ⟨.fallback i :: list, index, count, rfl, hlist', step, progress, args, bound,
    Event.noted_mem_inside_iff.2 ⟨list, rfl, hbegun⟩, hspawns⟩

end Frame.ContainsAll

theorem Frame.Holds.entered (h : frame.ContainsAll settings es) :
    frame.Holds settings a (here (.entered a frame) :: es) := by
  intro place b f hmem
  cases hmem with
  | head => exact .inl ⟨rfl, rfl, rfl⟩
  | tail _ hmem => exact .inr ((h place b f hmem).mono fun e he => List.mem_cons_of_mem _ he)

theorem Frame.Holds.append (h : frame.Holds settings a es) (ht : Unentered fs) :
    frame.Holds settings a (es ++ fs) := by
  intro place b f hmem
  obtain hmem | hmem := List.mem_append.1 hmem
  · obtain hown | hcontains := h place b f hmem
    · exact .inl hown
    · exact .inr (hcontains.mono fun e he => List.mem_append_left fs he)
  · exact (ht place b f hmem).elim

namespace Frame.Tries

variable {index : Nat} {step : Step} {args : Table Json}

theorem of_unentered (h : Unentered es) : frame.Tries settings index step args es :=
  fun place a f hmem => (h place a f hmem).elim

theorem append (h : frame.Tries settings index step args es)
    (ht : frame.Tries settings index step args fs) :
    frame.Tries settings index step args (es ++ fs) := by
  intro place a f hmem
  exact (List.mem_append.1 hmem).elim (h place a f) (ht place a f)

theorem cons (hnews : ∀ a f, news ≠ .entered a f) (h : frame.Tries settings index step args es) :
    frame.Tries settings index step args (here news :: es) :=
  append (of_unentered (.cons hnews .nil)) h

theorem attempt {levels : Nat} (h : (Part.bounded levels frame index step args).Nests settings es)
    (count : Nat) :
    frame.Tries settings index step args (es.map (Event.inside (.attempt index count))) := by
  intro place b f hmem
  obtain ⟨rest, rfl, hinner⟩ := Event.noted_mem_inside_iff.1 hmem
  rw [Place.depth_attempt]
  obtain hnone | ⟨a, bound, hcalls, hholds⟩ := h
  · exact (hnone rest b f hinner).elim
  obtain ⟨rfl, rfl, rfl⟩ | hcontains := hholds rest b f hinner
  · exact ⟨Nat.succ_pos _, ⟨bound, rfl⟩, fun _ => ⟨count, bound, rfl, hcalls, rfl⟩⟩
  · obtain ⟨inner, hmade⟩ := hcontains.made
    have hdepth : frame.depth + (Place.depth rest + 1) = frame.depth + 1 + Place.depth rest := by
      omega
    refine ⟨Nat.succ_pos _, ⟨inner, ?_⟩, fun hone => ?_⟩
    · rw [hdepth]
      exact hmade
    · have hpos := hcontains.inside
      omega

theorem begun {progress : Progress} (h : frame.Tries settings index step args es)
    (hruns : step.Runs settings.limits (frame.vars progress.begin) args) :
    frame.ContainsAll settings
      (here (.begun index step progress) :: here (.dispatched index step.kind) :: es) := by
  have htries : frame.Tries settings index step args
      (here (.begun index step progress) :: here (.dispatched index step.kind) :: es) :=
    .cons nofun (.cons nofun h)
  intro place a f hmem
  obtain ⟨hinside, hmade, hspawned⟩ := htries place a f hmem
  refine ⟨hinside, hmade, fun hdepth => ?_⟩
  obtain ⟨count, bound, rfl, hcalls, hf⟩ := hspawned hdepth
  exact ⟨[], index, count, rfl, rfl, step, progress, args, bound, List.mem_cons_self, hruns, hcalls,
    hf⟩

end Frame.Tries

end

theorem Course.nests {settings : Settings} {part : Part} {es : List Event} {r : Option part.Result}
    (h : Course settings part es r) : part.Nests settings es := by
  induction h with
  | actionCut steps ih | actionFails steps ih | actionDone steps concluded ih => exact .entered ih
  | actionRefused steps refused ih => exact (Frame.Holds.entered ih).append (.raised _)
  | noSteps => exact .of_unentered .nil
  | stepCut head ih | stepFails head ih => exact ih
  | stepDone head tail ihHead ihTail => exact ihHead.append ihTail
  | halted | overLimit => exact .of_unentered (.raised _)
  | skipped => exact .of_unentered (.cons nofun (.recorded _))
  | broken => exact .of_unentered (.cons nofun (.cons nofun (.recorded _)))
  | attemptsCut room runs tries ih => exact ih.begun runs
  | attempted room runs tries ending ihTries ihEnding => exact (ihTries.begun runs).append ihEnding
  | succeeded | aborted | ignored => exact .of_unentered (.recorded _)
  | rescueCut result mild policy rescue ih => exact ih.fallback _
  | rescued result mild policy rescue ih | unrescued result mild policy rescue ih =>
    exact (ih.fallback _).append (.of_unentered (.recorded _))
  | attemptCut once ih | attemptLast once last ih | pauseCut once mild ih =>
    exact .cons nofun (.attempt ih _)
  | pauseHalted once mild raised ih =>
    exact .cons nofun ((Frame.Tries.attempt ih _).append (.of_unentered (.raised _)))
  | again once mild others ihOnce ihOthers =>
    exact .cons nofun ((Frame.Tries.attempt ihOnce _).append ihOthers)
  | inTime work ih => exact ih
  | timedOut work bound raised ih =>
    obtain hnone | ⟨a, given, hcalls, hholds⟩ := ih
    · exact .inl (hnone.append (.raised _))
    · exact .inr ⟨a, given, hcalls, hholds.append (.raised _)⟩
  | refused | tooDeep | noTarget => exact .inl (.raised _)
  | ran task target body ih => exact .inr ⟨_, _, ⟨_, _, task, target⟩, ih⟩
  | onPage => exact .inl (.sent _)
  | pageFails => exact .inl (.append (.sent _) (.raised _))

theorem Frame.Holds.own {settings : Settings} {frame f : Frame} {a b : Action} {es : List Event}
    (h : frame.Holds settings a es) (hb : .noted ⟨.entered b f, []⟩ ∈ es) : b = a := by
  obtain ⟨-, hown, -⟩ | hcontains := h [] b f hb
  · exact hown
  · exact absurd hcontains.inside (Nat.lt_irrefl 0)

theorem Course.entered_unique {settings : Settings} {part : Part} {es : List Event}
    {r : Option part.Result} (h : Course settings part es r) {place : Place} {a b : Action}
    {f g : Frame} (ha : .noted ⟨.entered a f, place⟩ ∈ es)
    (hb : .noted ⟨.entered b g, place⟩ ∈ es) : a = b := by
  rw [← mem_newsAt] at ha hb
  obtain hnone | ⟨inner, fs, r, hc, -, hnotes⟩ := h.at_place place
  · rw [newsAt, hnone] at ha
    cases ha
  rw [newsAt_of_notesAt_own hnotes, mem_newsAt] at ha hb
  have hnests := hc.nests
  cases inner with
  | action levels frame c => exact (hnests.own ha).trans (hnests.own hb).symm
  | steps | step | ending => exact absurd (hnests [] a f ha).inside (Nat.lt_irrefl 0)
  | attempts => exact absurd (hnests [] a f ha).1 (Nat.lt_irrefl 0)
  | bounded | dispatch =>
    obtain hnone | ⟨c, bound, -, hholds⟩ := hnests
    · exact (hnone [] a f ha).elim
    · exact (hholds.own ha).trans (hholds.own hb).symm

end PageFlow
