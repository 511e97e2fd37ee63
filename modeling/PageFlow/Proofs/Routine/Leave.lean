import PageFlow.Proofs.Routine.Agreement
import PageFlow.Proofs.Routine.Truncation

namespace PageFlow

def Call.seeks : Call → Bool
  | locate _ | resolve .. => true
  | navigate .. | evaluate _ | keyboard _ | act .. => false

/-- What the last check of the status still lets a routine ask of the page. -/
inductive Leave where
  | any
  /-- The use of the element that was looked for. -/
  | use
  | none

namespace Leave

def Grants : Leave → Call → Prop
  | any, _ => True
  | use, c => ∃ element op, c = .act element op
  | none, _ => False

def afterCall : Leave → Call → Leave
  | any, c => if c.seeks then use else none
  | use, _ | none, _ => none

/-- A pause of its own uses the leave up; that of a call does not. -/
def afterPause : Leave → Leave
  | use => use
  | any | none => none

/-- An element is used before anything is reported. -/
def afterNote : Leave → Leave
  | any => any
  | use | none => none

theorem afterCall_afterPause (leave : Leave) (c : Call) :
    (leave.afterCall c).afterPause = leave.afterCall c := by
  cases leave with
  | any => cases h : c.seeks <;> simp [afterCall, afterPause, h]
  | use | none => rfl

end Leave

namespace Routine

variable {σ α β : Type} {p : Routine α} {bad : α → Prop} {leave : Leave}

/-- The routine calls with leave only, and gives up where it is told to stop. -/
def Obeys (bad : α → Prop) : Leave → Routine α → Prop
  | _, done _ => True
  | leave, ask (.pause _) next => (next ()).Obeys bad leave.afterPause
  | leave, ask (.send c) next => leave.Grants c ∧ ∀ ms, (next ms).Obeys bad (leave.afterCall c)
  | leave, ask (.settle _) next => ∀ answer, (next answer).Obeys bad leave
  | _, ask .status next => (next none).Obeys bad .any ∧ ∀ cause, (next (some cause)).GivesUp bad
  | leave, ask (.note _) next => (next ()).Obeys bad leave.afterNote

theorem GivesUp.obeys (h : p.GivesUp bad) (leave : Leave) : p.Obeys bad leave := by
  induction p generalizing leave with
  | done a => trivial
  | ask r next ih =>
    cases r with
    | note n => exact ih () h _
    | pause | send | settle | status => exact h.elim

namespace Obeys

theorem of_none (h : p.Obeys bad .none) (leave : Leave) : p.Obeys bad leave := by
  induction p generalizing leave with
  | done a => trivial
  | ask r next ih =>
    cases r with
    | pause ms => exact ih () h _
    | send c => exact h.1.elim
    | settle c => exact fun answer => ih answer (h answer) leave
    | status => exact h
    | note n => exact ih () h _

theorem bind {f : α → Routine β} {bad' : β → Prop} (h : p.Obeys bad leave)
    (hbad : ∀ a, bad a → (f a).GivesUp bad') (hf : ∀ a, (f a).Obeys bad' .none) :
    (p.bind f).Obeys bad' leave := by
  induction p generalizing leave with
  | done a => exact (hf a).of_none leave
  | ask r next ih =>
    cases r with
    | pause ms => exact ih () h
    | send c => exact ⟨h.1, fun ms => ih ms (h.2 ms)⟩
    | settle c => exact fun answer => ih answer (h answer)
    | status => exact ⟨ih none h.1, fun cause => (h.2 cause).bind hbad⟩
    | note n => exact ih () h

theorem within (h : p.Obeys bad leave) (limit : Nat) :
    (p.within limit).Obeys (fun r => ∃ a, r = some a ∧ bad a) leave := by
  induction p generalizing leave limit with
  | done a => trivial
  | ask r next ih =>
    cases r with
    | pause ms =>
      rw [Routine.within]
      split
      · exact ih () h _
      · trivial
    | send c => exact ⟨h.1, fun ms => ih ms (h.2 ms) limit⟩
    | settle c => exact fun answer => ih answer (h answer) limit
    | status => exact ⟨ih none h.1 limit, fun cause => (h.2 cause).within limit⟩
    | note n => exact ih () h limit

theorem collect (h : p.Obeys bad leave) (turn : Turn) (soFar : List Entry) :
    (p.collect turn soFar).Obeys (fun r => bad r.1) leave := by
  induction p generalizing leave soFar with
  | done a => trivial
  | ask r next ih =>
    cases r with
    | pause ms => exact ih () h soFar
    | send c => exact ⟨h.1, fun ms => ih ms (h.2 ms) soFar⟩
    | settle c => exact fun answer => ih answer (h answer) soFar
    | status => exact ⟨ih none h.1 soFar, fun cause => (h.2 cause).collect turn soFar⟩
    | note n => exact ih () h _

end Obeys

end Routine

namespace Moment

variable {σ : Type} {m later : Moment σ} {s : Signals}

theorem stop?_of_isCancelled (h : m.isCancelled s = true) : m.stop? s = some .cancelled := by
  rw [stop?, status, Status.stop?, if_pos h]

theorem isCancelled_mono (h : m.isCancelled s = true) (hnow : m.now ≤ later.now)
    (hcancelled : m.cancelled = true → later.cancelled = true) : later.isCancelled s = true := by
  rw [isCancelled, Bool.or_eq_true] at h ⊢
  rcases h with h | h
  · exact .inl (hcancelled h)
  · right
    cases hat : s.at? with
    | none => simp [hat] at h
    | some c =>
      simp only [hat, decide_eq_true_eq] at h ⊢
      exact Nat.le_trans h hnow

theorem isCancelled_send (h : m.isCancelled s = true) (page : Page σ) (c : Call) :
    (m.send page s c).2.isCancelled s = true := by
  have hnow : m.now ≤ (m.send page s c).2.now := Nat.le_refl _
  apply isCancelled_mono h hnow
  intro hm
  simp [send, hm]

/-- The moment of a run in which no call has cancelled anything. -/
def uncancelled (m : Moment σ) : Moment σ :=
  { m with cancelled := false }

theorem uncancelled_send (m : Moment σ) (page : Page σ) (c : Call) (deadline : Nat) :
    m.uncancelled.send page { deadline } c =
      ((m.send page s c).1, (m.send page s c).2.uncancelled) := by
  simp [send, uncancelled, Cancellation.firesIn]

theorem uncancelled_stop? (h : m.stop? s = none) :
    m.uncancelled.stop? { deadline := s.deadline } = none := by
  rw [stop?, status, Status.stop?, isCancelled] at h ⊢
  grind [uncancelled]

theorem uncancelled_interruption? {ms : Nat} (h : m.interruption? s ms = none) :
    m.uncancelled.interruption? { deadline := s.deadline } ms = none := by
  rw [interruption?, isCancelled] at h ⊢
  grind [uncancelled]

end Moment

def Request.isWait : Request → Bool
  | .pause _ | .settle _ => true
  | .send _ | .status | .note _ => false

/-- The requests that may follow a call by which, or while which, a run is cancelled. -/
def WindsUp (c : Call) (after : List (Nat × Request)) : Prop :=
  callsOf after = [] ∨ c.seeks ∧ ∃ waits t element op rest,
    after = waits ++ (t, .send (.act element op)) :: rest ∧ (∀ q ∈ waits, q.2.isWait) ∧
      callsOf rest = []

theorem WindsUp.cons {c : Call} {after : List (Nat × Request)} (h : WindsUp c after)
    {q : Nat × Request} (hq : q.2.isWait) : WindsUp c (q :: after) := by
  obtain ⟨t, r⟩ := q
  rcases h with hnone | ⟨hc, waits, u, element, op, rest, rfl, hwaits, hrest⟩
  · left
    cases r with
    | pause | settle => exact hnone
    | send | status | note => cases hq
  · exact .inr ⟨hc, (t, r) :: waits, u, element, op, rest, rfl,
      List.forall_mem_cons.2 ⟨hq, hwaits⟩, hrest⟩

/-- A run is cancelled while a call is under way: by the call, or at a time before its answer. -/
def Cancellation.FiresDuring (s : Cancellation) (earlier t : Nat) (c : Call)
    (after : List (Nat × Request)) : Prop :=
  s.firesIn earlier c ∨
    ∃ u ms rest, s.at? = some u ∧ after = (t, .pause ms) :: rest ∧ t ≤ u ∧ u ≤ t + ms

theorem exists_of_cons_eq {q : Nat × Request} {tail before after : List (Nat × Request)} {t : Nat}
    {c : Call} (h : q :: tail = before ++ (t, .send c) :: after) (hq : q.2.call? = none) :
    ∃ rest, tail = rest ++ (t, .send c) :: after ∧ callsOf before = callsOf rest := by
  cases before with
  | nil =>
    cases h
    cases hq
  | cons q' rest =>
    cases h
    exact ⟨rest, rfl, by simp [callsOf, hq]⟩

namespace Routine

variable {σ α : Type} {p : Routine α} {bad : α → Prop} {leave : Leave} {page : Page σ}
  {s : Signals} {m : Moment σ}

theorem GivesUp.callsOf_asked (h : p.GivesUp bad) (page : Page σ) (s : Signals) (m : Moment σ) :
    callsOf (p.asked page s m) = [] := by
  obtain ⟨a, -, -, hcalls⟩ := h.run page s m
  rw [p.run_calls page s m] at hcalls
  exact List.append_right_eq_self.1 hcalls

namespace Obeys

/-- Cancelled and without leave, a routine makes no more calls. -/
theorem callsOf_asked (h : p.Obeys bad .none) (hm : m.isCancelled s = true) :
    callsOf (p.asked page s m) = [] := by
  induction p generalizing m with
  | done a => rfl
  | ask r next ih =>
    cases r with
    | pause ms =>
      cases hi : m.interruption? s ms with
      | some i =>
        rw [asked_interrupted hi]
        rfl
      | none =>
        rw [asked_pause hi]
        exact ih () h (Moment.isCancelled_mono hm (Nat.le_add_right _ _) id)
    | send c => exact h.1.elim
    | settle c => exact ih _ (h _) (Moment.isCancelled_mono hm (Nat.le_refl _) id)
    | status =>
      rw [asked, Moment.stop?_of_isCancelled hm]
      exact (h.2 .cancelled).callsOf_asked page s m
    | note n => exact ih () h (Moment.isCancelled_mono hm (Nat.le_refl _) id)

/-- Cancelled while it looks for an element, a routine may use it and makes no other call. -/
theorem windsUp_of_seeks {c : Call} (hc : c.seeks) (h : p.Obeys bad .use)
    (hm : m.isCancelled s = true) : WindsUp c (p.asked page s m) := by
  induction p generalizing m with
  | done a => exact .inl rfl
  | ask r next ih =>
    cases r with
    | pause ms =>
      cases hi : m.interruption? s ms with
      | some i =>
        rw [asked_interrupted hi]
        exact .inl rfl
      | none =>
        rw [asked_pause hi]
        have hlater : { m with now := m.now + ms }.isCancelled s = true :=
          Moment.isCancelled_mono hm (Nat.le_add_right _ _) id
        exact (ih () h hlater).cons (q := (m.now, .pause ms)) rfl
    | send act =>
      obtain ⟨⟨element, op, rfl⟩, hnext⟩ := h
      refine .inr ⟨hc, [], m.now, element, op, _, rfl, by simp, ?_⟩
      exact (hnext _).callsOf_asked (Moment.isCancelled_send hm page _)
    | settle c =>
      have hlater : { m with page := (page.settle m.page m.now c).2 }.isCancelled s = true :=
        Moment.isCancelled_mono hm (Nat.le_refl _) id
      exact (ih _ (h _) hlater).cons (q := (m.now, .settle c)) rfl
    | status =>
      rw [asked, Moment.stop?_of_isCancelled hm]
      exact .inl ((h.2 .cancelled).callsOf_asked page s m)
    | note n => exact .inl (Obeys.callsOf_asked h (Moment.isCancelled_mono hm (Nat.le_refl _) id))

theorem windsUp {c : Call} (h : p.Obeys bad (leave.afterCall c)) (hm : m.isCancelled s = true) :
    WindsUp c (p.asked page s m) := by
  cases leave with
  | any =>
    by_cases hc : c.seeks
    · rw [Leave.afterCall, if_pos hc] at h
      exact h.windsUp_of_seeks hc hm
    · rw [Leave.afterCall, if_neg hc] at h
      exact .inl (h.callsOf_asked hm)
  | use | none => exact .inl (Obeys.callsOf_asked h hm)

theorem windsUp_of_pause {c : Call} (h : p.Obeys bad (leave.afterCall c)) {t ms u : Nat}
    {rest : List (Nat × Request)} (hasked : p.asked page s m = (t, .pause ms) :: rest)
    (hat : s.at? = some u) (hu : u ≤ t + ms) : WindsUp c (p.asked page s m) := by
  cases p with
  | done a => cases hasked
  | ask r next =>
    cases r with
    | send | settle | status | note =>
      rw [asked] at hasked
      cases hasked
    | pause ms' =>
      cases hi : m.interruption? s ms' with
      | some i =>
        rw [asked_interrupted hi]
        exact .inl rfl
      | none =>
        rw [asked_pause hi] at hasked ⊢
        cases hasked
        have hlater : { m with now := m.now + ms }.isCancelled s = true := by
          simp [Moment.isCancelled, hat, hu]
        have hnext : (next ()).Obeys bad (leave.afterCall c) := by
          rw [← leave.afterCall_afterPause c]
          exact h
        exact (hnext.windsUp hlater).cons rfl

theorem windsUp_of_fires (h : p.Obeys bad leave) {before after : List (Nat × Request)} {t : Nat}
    {c : Call} (hsplit : p.asked page s m = before ++ (t, .send c) :: after)
    (hfires : s.FiresDuring (m.calls.length + (callsOf before).length) t c after) :
    WindsUp c after := by
  induction p generalizing m leave before with
  | done a =>
    rw [asked] at hsplit
    simp at hsplit
  | ask r next ih =>
    cases r with
    | pause ms =>
      cases hi : m.interruption? s ms with
      | some i =>
        rw [asked_interrupted hi] at hsplit
        obtain ⟨rest, hrest, -⟩ := exists_of_cons_eq hsplit rfl
        simp at hrest
      | none =>
        rw [asked_pause hi] at hsplit
        obtain ⟨rest, hrest, hcalls⟩ := exists_of_cons_eq hsplit rfl
        rw [hcalls] at hfires
        exact ih () h hrest hfires
    | send call =>
      cases before with
      | nil =>
        cases hsplit
        -- the run is cancelled by the call, or while the pause of the call goes on
        rcases hfires with hcall | ⟨u, ms, rest, hat, hafter, -, hu⟩
        · apply (h.2 _).windsUp
          have hlength : m.calls.length + (callsOf []).length = m.calls.length := rfl
          rw [hlength] at hcall
          simp [Moment.isCancelled, hcall]
        · exact (h.2 _).windsUp_of_pause hafter hat hu
      | cons q before =>
        obtain ⟨rfl, htail⟩ := List.cons.inj hsplit
        have hlength : m.calls.length + (callsOf ((m.now, .send call) :: before)).length =
            (m.send page s call).2.calls.length + (callsOf before).length := by
          simp [Moment.send, callsOf, Request.call?]
          omega
        rw [hlength] at hfires
        exact ih _ (h.2 _) htail hfires
    | settle c =>
      obtain ⟨rest, hrest, hcalls⟩ := exists_of_cons_eq hsplit rfl
      rw [hcalls] at hfires
      exact ih _ (h _) hrest hfires
    | status =>
      obtain ⟨rest, hrest, hcalls⟩ := exists_of_cons_eq hsplit rfl
      rw [hcalls] at hfires
      -- a run that is told to stop here, by its deadline or earlier, makes no call at all
      cases hstop : m.stop? s with
      | none =>
        rw [hstop] at hrest
        exact ih none h.1 hrest hfires
      | some cause =>
        rw [hstop] at hrest
        exact ih (some cause) ((h.2 cause).obeys leave) hrest hfires
    | note n =>
      obtain ⟨rest, hrest, hcalls⟩ := exists_of_cons_eq hsplit rfl
      rw [hcalls] at hfires
      exact ih () h hrest hfires

theorem calls_isPrefix (h : p.Obeys bad leave) (page : Page σ) (s : Signals) (m : Moment σ) :
    (p.run page s m).2.calls <+:
      (p.run page { deadline := s.deadline } m.uncancelled).2.calls := by
  induction p generalizing m leave with
  | done a => exact List.prefix_refl _
  | ask r next ih =>
    cases r with
    | pause ms =>
      cases hi : m.interruption? s ms with
      | some i =>
        rw [run_interrupted hi, run_calls]
        exact List.prefix_append m.calls _
      | none =>
        rw [run_pause hi, run_pause (Moment.uncancelled_interruption? hi)]
        exact ih () h { m with now := m.now + ms }
    | send c =>
      rw [run, run, Moment.uncancelled_send]
      exact ih _ (h.2 _) _
    | settle c => exact ih _ (h _) { m with page := (page.settle m.page m.now c).2 }
    | status =>
      cases hstop : m.stop? s with
      | none =>
        rw [run, run, hstop, Moment.uncancelled_stop? hstop]
        exact ih none h.1 m
      | some cause =>
        obtain ⟨a, -, -, hcalls⟩ := (h.2 cause).run page s m
        rw [run, hstop, hcalls, run_calls]
        exact List.prefix_append m.calls _
    | note n => exact ih () h { m with ledger := m.ledger.note n }

end Obeys

end Routine

end PageFlow
