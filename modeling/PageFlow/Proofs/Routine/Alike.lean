import PageFlow.Run.World

namespace PageFlow

variable {σ α β γ δ : Type}

namespace Routine

inductive Alike (R : α → β → Prop) : Routine α → Routine β → Prop
  | done {a : α} {b : β} (h : R a b) : Alike R (done a) (done b)
  | ask (r : Request) {next : r.Reply → Routine α} {next' : r.Reply → Routine β}
    (h : ∀ answer, Alike R (next answer) (next' answer)) : Alike R (ask r next) (ask r next')
  | note {n n' : Note} {next : Unit → Routine α} {next' : Unit → Routine β}
    (h : n.entry? = n'.entry?) (rest : Alike R (next ()) (next' ())) :
    Alike R (ask (.note n) next) (ask (.note n') next')

theorem Alike.refl (p : Routine α) : Alike Eq p p := by
  induction p with
  | done a => exact .done rfl
  | ask r next ih => exact .ask r ih

namespace Alike

variable {R : α → β → Prop} {S : γ → δ → Prop} {p : Routine α} {q : Routine β}

theorem bind {f : α → Routine γ} {g : β → Routine δ} (h : Alike R p q)
    (hf : ∀ a b, R a b → Alike S (f a) (g b)) : Alike S (p.bind f) (q.bind g) := by
  induction h with
  | done hab => exact hf _ _ hab
  | ask r h ih => exact .ask r ih
  | note h rest ih => exact .note h ih

theorem within (h : Alike R p q) (limit : Nat) :
    Alike (Option.Rel R) (p.within limit) (q.within limit) := by
  induction h generalizing limit with
  | done hab => exact .done (.some hab)
  | ask r h ih =>
    cases r with
    | pause ms =>
      rw [Routine.within, Routine.within]
      split
      · exact .ask _ fun answer => ih answer _
      · exact .ask _ fun _ => .done .none
    | send c => exact .ask _ fun answer => ih answer limit
    | settle c => exact .ask _ fun answer => ih answer limit
    | status => exact .ask _ fun answer => ih answer limit
    | note n => exact .ask _ fun answer => ih answer limit
  | note h rest ih => exact .note h (ih limit)

theorem collect (h : Alike R p q) (turn turn' : Turn) (soFar : List Entry) :
    Alike (fun x y => R x.1 y.1 ∧ x.2 = y.2) (p.collect turn soFar) (q.collect turn' soFar) := by
  have hinside : ∀ n n' : Note,
      Note.entry? (n.inside turn) = Note.entry? (n'.inside turn') := by
    intro n n'
    obtain ⟨news, place⟩ := n
    obtain ⟨news', place'⟩ := n'
    cases news <;> cases news' <;> rfl
  induction h generalizing soFar with
  | done hab => exact .done ⟨hab, rfl⟩
  | ask r h ih =>
    cases r with
    | pause ms => exact .ask _ fun answer => ih answer soFar
    | send c => exact .ask _ fun answer => ih answer soFar
    | settle c => exact .ask _ fun answer => ih answer soFar
    | status => exact .ask _ fun answer => ih answer soFar
    | note n => exact .note (hinside n n) (ih () _)
  | @note n n' _ _ h rest ih =>
    apply Alike.note (hinside n n')
    rw [h]
    exact ih _

theorem note_bind {news news' : News} {f : Unit → Routine α} {g : Unit → Routine β}
    (hnews : Note.entry? { news } = Note.entry? { news := news' }) (h : Alike R (f ()) (g ())) :
    Alike R (Routine.note news >>= f) (Routine.note news' >>= g) :=
  .note hnews h

theorem pause_bind (ms : Nat) {f : Unit → Routine α} {g : Unit → Routine β}
    (h : Alike R (f ()) (g ())) : Alike R (pause ms >>= f) (pause ms >>= g) :=
  .ask (.pause ms) fun _ => h

theorem status_bind {f : Option Interrupt → Routine α} {g : Option Interrupt → Routine β}
    (h : ∀ stop, Alike R (f stop) (g stop)) : Alike R (status >>= f) (status >>= g) :=
  .ask .status h

end Alike

/-- Routines that ask the same of the world. All that they report may differ. -/
inductive InStep (R : α → β → Prop) : Routine α → Routine β → Prop
  | done {a : α} {b : β} (h : R a b) : InStep R (done a) (done b)
  | ask (r : Request) {next : r.Reply → Routine α} {next' : r.Reply → Routine β}
    (h : ∀ answer, InStep R (next answer) (next' answer)) : InStep R (ask r next) (ask r next')
  | note (n n' : Note) {next : Unit → Routine α} {next' : Unit → Routine β}
    (rest : InStep R (next ()) (next' ())) : InStep R (ask (.note n) next) (ask (.note n') next')

theorem Alike.inStep {R : α → β → Prop} {p : Routine α} {q : Routine β} (h : Alike R p q) :
    InStep R p q := by
  induction h with
  | done hab => exact .done hab
  | ask r h ih => exact .ask r ih
  | note h rest ih => exact .note _ _ ih

namespace InStep

variable {R : α → β → Prop} {S : γ → δ → Prop} {p : Routine α} {q : Routine β}

theorem refl (p : Routine α) : InStep Eq p p :=
  (Alike.refl p).inStep

theorem bind {f : α → Routine γ} {g : β → Routine δ} (h : InStep R p q)
    (hf : ∀ a b, R a b → InStep S (f a) (g b)) : InStep S (p.bind f) (q.bind g) := by
  induction h with
  | done hab => exact hf _ _ hab
  | ask r h ih => exact .ask r ih
  | note n n' rest ih => exact .note n n' ih

theorem note_bind {news news' : News} {f : Unit → Routine α} {g : Unit → Routine β}
    (h : InStep R (f ()) (g ())) :
    InStep R (Routine.note news >>= f) (Routine.note news' >>= g) :=
  .note _ _ h

theorem status_bind {f : Option Interrupt → Routine α} {g : Option Interrupt → Routine β}
    (h : ∀ stop, InStep R (f stop) (g stop)) : InStep R (status >>= f) (status >>= g) :=
  .ask .status h

end InStep

end Routine

/-- Moments that differ at most in what the runs have recorded. -/
structure Moment.Agrees (m m' : Moment σ) : Prop where
  page : m.page = m'.page
  now : m.now = m'.now
  cancelled : m.cancelled = m'.cancelled
  calls : m.calls = m'.calls

theorem Moment.Agrees.eq_ledger {m m' : Moment σ} (h : m.Agrees m') :
    m' = { m with ledger := m'.ledger } := by
  obtain ⟨page, now, cancelled, calls, ledger⟩ := m'
  obtain ⟨rfl, rfl, rfl, rfl⟩ := h
  rfl

inductive SameRun (R : α → β → Prop) :
    Except Interrupt α × Moment σ → Except Interrupt β × Moment σ → Prop
  | ends {a : α} {b : β} {m m' : Moment σ} (h : R a b) (hm : m.Agrees m') :
    SameRun R (.ok a, m) (.ok b, m')
  | cut (cause : Interrupt) {m m' : Moment σ} (hm : m.Agrees m') :
    SameRun R (.error cause, m) (.error cause, m')

theorem Routine.InStep.run {R : α → β → Prop} {p : Routine α} {q : Routine β} (h : InStep R p q)
    (page : Page σ) (signals : Signals) {m m' : Moment σ} (hm : m.Agrees m') :
    SameRun R (p.run page signals m) (q.run page signals m') := by
  induction h generalizing m m' with
  | done hab => exact .ends hab hm
  | ask r h ih =>
    rw [hm.eq_ledger]
    cases r with
    | pause ms =>
      have hsame : Moment.interruption? { m with ledger := m'.ledger } signals ms =
          m.interruption? signals ms := rfl
      rw [Routine.run, Routine.run, hsame]
      cases m.interruption? signals ms with
      | some i => exact .cut i.2 ⟨rfl, rfl, rfl, rfl⟩
      | none => exact ih () ⟨rfl, rfl, rfl, rfl⟩
    | send c => exact ih _ ⟨rfl, rfl, rfl, rfl⟩
    | settle c => exact ih _ ⟨rfl, rfl, rfl, rfl⟩
    | status => exact ih _ ⟨rfl, rfl, rfl, rfl⟩
    | note n => exact ih () ⟨rfl, rfl, rfl, rfl⟩
  | note n n' rest ih => exact ih ⟨hm.page, hm.now, hm.cancelled, hm.calls⟩

theorem Routine.Alike.run {R : α → β → Prop} {p : Routine α} {q : Routine β} (h : Alike R p q)
    (page : Page σ) (signals : Signals) {m m' : Moment σ} (hm : m.Agrees m') :
    SameRun R (p.run page signals m) (q.run page signals m') :=
  h.inStep.run page signals hm

end PageFlow
