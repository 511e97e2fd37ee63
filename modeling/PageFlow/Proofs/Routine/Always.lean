import PageFlow.Run.World

namespace PageFlow

/-- What shows of a routine from outside: the calls that it sends, and what it reports. -/
inductive Event where
  | sent (c : Call)
  | noted (n : Note)

def Request.event? : Request → Option Event
  | .send c => some (.sent c)
  | .note n => some (.noted n)
  | .pause _ | .settle _ | .status => none

namespace Event

/-- The event as it looks from outside of a turn. -/
def inside (turn : Turn) : Event → Event
  | sent c => sent c
  | noted n => noted (n.inside turn)

def entry? : Event → Option Entry
  | sent _ => none
  | noted n => n.entry?

end Event

def entriesOf (es : List Event) : List Entry :=
  es.filterMap Event.entry?

@[simp] theorem entriesOf_nil : entriesOf [] = [] := rfl

@[simp] theorem entriesOf_append (es fs : List Event) :
    entriesOf (es ++ fs) = entriesOf es ++ entriesOf fs :=
  List.filterMap_append

@[simp] theorem entriesOf_cons (e : Event) (es : List Event) :
    entriesOf (e :: es) = e.entry?.toList ++ entriesOf es := by
  cases h : e.entry? <;> simp [entriesOf, h]

@[simp] theorem entriesOf_inside (turn : Turn) (es : List Event) :
    entriesOf (es.map (Event.inside turn)) = [] := by
  rw [entriesOf, List.filterMap_eq_nil_iff]
  intro e he
  obtain ⟨e, -, rfl⟩ := List.mem_map.1 he
  cases e with
  | sent c => rfl
  | noted n =>
    obtain ⟨news, place⟩ := n
    cases news <;> rfl

@[simp] theorem entriesOf_sent (calls : List Call) : entriesOf (calls.map Event.sent) = [] := by
  rw [entriesOf, List.filterMap_eq_nil_iff]
  intro e he
  obtain ⟨c, -, rfl⟩ := List.mem_map.1 he
  rfl

namespace Routine

variable {α β : Type}

/--
Whatever the world answers, the events of the routine and its value satisfy `Q`; there is no value
where it is cut short in a pause.
-/
def Always : Routine α → (List Event → Option α → Prop) → Prop
  | done a, Q => Q [] (some a)
  | ask (.pause _) next, Q => Q [] none ∧ (next ()).Always Q
  | ask (.send c) next, Q => ∀ ms, (next ms).Always fun es r => Q (.sent c :: es) r
  | ask (.settle _) next, Q => ∀ answer, (next answer).Always Q
  | ask .status next, Q => ∀ status, (next status).Always Q
  | ask (.note n) next, Q => (next ()).Always fun es r => Q (.noted n :: es) r

namespace Always

variable {p : Routine α} {Q Q' : List Event → Option α → Prop}

theorem mono (h : p.Always Q) (hQ : ∀ es r, Q es r → Q' es r) : p.Always Q' := by
  induction p generalizing Q Q' with
  | done a => exact hQ _ _ h
  | ask r next ih =>
    cases r with
    | pause ms => exact ⟨hQ _ _ h.1, ih _ h.2 hQ⟩
    | send c => exact fun ms => ih _ (h ms) fun es r => hQ _ r
    | settle c => exact fun answer => ih _ (h answer) hQ
    | status => exact fun status => ih _ (h status) hQ
    | note n => exact ih _ h fun es r => hQ _ r

/-- What a routine does before its value is handed on, and what follows from the value. -/
theorem bind {f : α → Routine β} {Q : List Event → Option β → Prop}
    (h : p.Always fun es r => match r with
      | none => Q es none
      | some a => (f a).Always fun fs r => Q (es ++ fs) r) :
    (p.bind f).Always Q := by
  induction p generalizing Q with
  | done a => exact h
  | ask r next ih =>
    cases r with
    | pause ms => exact ⟨h.1, ih _ h.2⟩
    | send c => exact fun ms => ih _ (h ms)
    | settle c => exact fun answer => ih _ (h answer)
    | status => exact fun status => ih _ (h status)
    | note n => exact ih _ h

theorem within {limit : Nat} {Q : List Event → Option (Option α) → Prop}
    (h : p.Always fun es r => match r with
      | none => Q es none ∧ Q es (some none)
      | some a => Q es (some (some a))) :
    (p.within limit).Always Q := by
  induction p generalizing limit Q with
  | done a => exact h
  | ask r next ih =>
    cases r with
    | pause ms =>
      rw [Routine.within]
      split
      · exact ⟨h.1.1, ih _ h.2⟩
      · exact ⟨h.1.1, h.1.2⟩
    | send c => exact fun ms => ih _ (h ms)
    | settle c => exact fun answer => ih _ (h answer)
    | status => exact fun status => ih _ (h status)
    | note n => exact ih _ h

theorem collect {turn : Turn} {soFar : List Entry}
    {Q : List Event → Option (α × List Entry) → Prop}
    (h : p.Always fun es r =>
      Q (es.map (Event.inside turn)) (r.map fun a => (a, soFar ++ entriesOf es))) :
    (p.collect turn soFar).Always Q := by
  induction p generalizing soFar Q with
  | done a =>
    have h : Q [] (some (a, soFar ++ [])) := h
    rwa [List.append_nil] at h
  | ask r next ih =>
    cases r with
    | pause ms => exact ⟨h.1, ih _ h.2⟩
    | send c => exact fun ms => ih _ (h ms)
    | settle c => exact fun answer => ih _ (h answer)
    | status => exact fun status => ih _ (h status)
    | note n =>
      refine ih _ (mono h fun es r hr => ?_)
      change Q (Event.inside turn (.noted n) :: es.map (Event.inside turn))
        (r.map fun a => (a, soFar ++ n.entry?.toList ++ entriesOf es))
      simpa [Event.entry?] using hr

end Always

end Routine

end PageFlow
