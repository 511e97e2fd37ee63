import PageFlow.Proofs.Routine.Truncation

namespace PageFlow

/-- A call that is sent to the page, or what the page answers to one. -/
inductive Message where
  | sent (c : Call)
  | answered (c : Call) (answer : Except PageError c.Answer)

def Message.call? : Message → Option Call
  | sent c => some c
  | answered .. => none

variable {σ α β : Type}

namespace Routine

def messages (page : Page σ) (signals : Signals) : Routine α → Moment σ → List Message
  | done _, _ => []
  | ask (.pause ms) next, m =>
    match m.interruption? signals ms with
    | some _ => []
    | none => (next ()).messages page signals { m with now := m.now + ms }
  | ask (.send c) next, m =>
    let (ms, after) := m.send page signals c
    .sent c :: (next ms).messages page signals after
  | ask (.settle c) next, m =>
    let (answer, state) := page.settle m.page m.now c
    .answered c answer :: (next answer).messages page signals { m with page := state }
  | ask .status next, m => (next (m.stop? signals)).messages page signals m
  | ask (.note n) next, m =>
    (next ()).messages page signals { m with ledger := m.ledger.note n }

theorem run_calls_messages (page : Page σ) (s : Signals) (p : Routine α) (m : Moment σ) :
    (p.run page s m).2.calls.map Prod.snd =
      m.calls.map Prod.snd ++ (p.messages page s m).filterMap Message.call? := by
  induction p generalizing m with
  | done a => exact (List.append_nil _).symm
  | ask r next ih =>
    cases r with
    | pause ms =>
      rw [messages]
      cases hi : m.interruption? s ms with
      | some i =>
        rw [run_interrupted hi]
        exact (List.append_nil _).symm
      | none =>
        rw [run_pause hi]
        exact ih () _
    | send c =>
      refine (ih _ _).trans ?_
      rw [messages, Moment.send, List.map_append, List.append_assoc]
      rfl
    | settle c => exact ih _ _
    | status => exact ih _ _
    | note n => exact ih () _

/--
Whatever the world answers, the messages of the routine and its value satisfy `Q`; there is no value
where it is cut short in a pause.
-/
def Speaks : Routine α → (List Message → Option α → Prop) → Prop
  | done a, Q => Q [] (some a)
  | ask (.pause _) next, Q => Q [] none ∧ (next ()).Speaks Q
  | ask (.send c) next, Q => ∀ ms, (next ms).Speaks fun said r => Q (.sent c :: said) r
  | ask (.settle c) next, Q =>
    ∀ answer, (next answer).Speaks fun said r => Q (.answered c answer :: said) r
  | ask .status next, Q => ∀ status, (next status).Speaks Q
  | ask (.note _) next, Q => (next ()).Speaks Q

namespace Speaks

variable {p : Routine α} {Q Q' : List Message → Option α → Prop}

theorem mono (h : p.Speaks Q) (hQ : ∀ said r, Q said r → Q' said r) : p.Speaks Q' := by
  induction p generalizing Q Q' with
  | done a => exact hQ _ _ h
  | ask r next ih =>
    cases r with
    | pause ms => exact ⟨hQ _ _ h.1, ih _ h.2 hQ⟩
    | send c => exact fun ms => ih _ (h ms) fun said => hQ _
    | settle c => exact fun answer => ih _ (h answer) fun said => hQ _
    | status => exact fun status => ih _ (h status) hQ
    | note n => exact ih _ h hQ

theorem bind {f : α → Routine β} {Q : List Message → Option β → Prop}
    (h : p.Speaks fun said r => match r with
      | none => Q said none
      | some a => (f a).Speaks fun more r => Q (said ++ more) r) :
    (p.bind f).Speaks Q := by
  induction p generalizing Q with
  | done a => exact h
  | ask r next ih =>
    cases r with
    | pause ms => exact ⟨h.1, ih _ h.2⟩
    | send c => exact fun ms => ih _ (h ms)
    | settle c => exact fun answer => ih _ (h answer)
    | status => exact fun status => ih _ (h status)
    | note n => exact ih _ h

theorem bind_quiet {f : α → Routine β} {Q : List Message → Option β → Prop}
    (h : p.Speaks fun said r => match r with
      | none => Q said none
      | some a => (f a).Speaks fun more r => more = [] ∧ Q said r) :
    (p.bind f).Speaks Q := by
  apply bind
  apply h.mono
  intro said r hr
  cases r with
  | none => exact hr
  | some a =>
    apply hr.mono
    rintro more r ⟨rfl, hq⟩
    rwa [List.append_nil]

theorem within {limit : Nat} {Q : List Message → Option (Option α) → Prop}
    (h : p.Speaks fun said r => match r with
      | none => Q said none ∧ Q said (some none)
      | some a => Q said (some (some a))) :
    (p.within limit).Speaks Q := by
  induction p generalizing limit Q with
  | done a => exact h
  | ask r next ih =>
    cases r with
    | pause ms =>
      rw [Routine.within]
      split
      · exact ⟨h.1.1, ih _ h.2⟩
      · exact ⟨h.1.1, h.1.2⟩
    | send c => exact fun ms => ih _ (h ms)
    | settle c => exact fun answer => ih _ (h answer)
    | status => exact fun status => ih _ (h status)
    | note n => exact ih _ h

theorem of_run (h : p.Speaks Q) (page : Page σ) (s : Signals) (m : Moment σ) :
    Q (p.messages page s m) (p.run page s m).1.toOption := by
  induction p generalizing Q m with
  | done a => exact h
  | ask r next ih =>
    cases r with
    | pause ms =>
      rw [messages, run]
      cases hi : m.interruption? s ms with
      | some i => exact h.1
      | none => exact ih _ h.2 _
    | send c => exact ih _ (h _) _
    | settle c => exact ih _ (h _) _
    | status => exact ih _ (h _) _
    | note n => exact ih _ h _

theorem call {c : Call} {Q : List Message → Option (Except PageError c.Answer) → Prop}
    (cut : Q [.sent c] none)
    (settled : ∀ answer, Q [.sent c, .answered c answer] (some answer)) :
    (Routine.call c).Speaks Q :=
  fun _ => ⟨cut, settled⟩

end Speaks

end Routine

end PageFlow
