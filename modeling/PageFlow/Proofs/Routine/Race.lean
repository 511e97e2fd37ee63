import PageFlow.Proofs.Routine.Always

namespace PageFlow

variable {σ α : Type}

def Ledger.after (l : Ledger) (es : List Event) : Ledger :=
  es.foldl (fun l e => match e with
    | .sent _ => l
    | .noted n => l.note n) l

@[simp] theorem Ledger.after_nil (l : Ledger) : l.after [] = l := rfl

@[simp] theorem Ledger.after_sent (l : Ledger) (c : Call) (es : List Event) :
    l.after (.sent c :: es) = l.after es := rfl

@[simp] theorem Ledger.after_noted (l : Ledger) (n : Note) (es : List Event) :
    l.after (.noted n :: es) = (l.note n).after es := rfl

theorem Ledger.after_append (l : Ledger) (es fs : List Event) :
    l.after (es ++ fs) = (l.after es).after fs :=
  List.foldl_append

theorem Ledger.note_entries (l : Ledger) (n : Note) :
    (l.note n).entries = l.entries ++ n.entry?.toList := by
  obtain ⟨news, place⟩ := n
  cases place with
  | nil => cases news <;> simp [Ledger.note, Note.entry?]
  | cons turn place => cases news <;> simp [Ledger.note, Note.entry?]

theorem Ledger.after_entries (l : Ledger) (es : List Event) :
    (l.after es).entries = l.entries ++ entriesOf es := by
  induction es generalizing l with
  | nil => simp
  | cons e es ih =>
    cases e with
    | sent c => rw [after_sent, ih, entriesOf_cons]; rfl
    | noted n => rw [after_noted, ih, note_entries, entriesOf_cons, List.append_assoc]; rfl

/-- What can interrupt a run, with the time from which on it is there. -/
inductive Moment.Signal (m : Moment σ) (signals : Signals) : Nat → Interrupt → Prop
  | called (h : m.cancelled) : m.Signal signals m.now .cancelled
  | timed {c : Nat} (h : signals.at? = some c) : m.Signal signals (max m.now c) .cancelled
  | deadline : m.Signal signals (max m.now signals.deadline) (.deadline signals.deadline)

namespace Moment

variable {m : Moment σ} {signals : Signals} {ms now : Nat} {cause : Interrupt}

/-- A signal that may win over a pause. -/
structure Stops (m : Moment σ) (signals : Signals) (ms now : Nat) (cause : Interrupt) : Prop where
  signal : m.Signal signals now cause
  inTime : now ≤ m.now + ms
  first : ∀ later other, m.Signal signals later other → now ≤ later

/-- A pause that may win over the signals. -/
def Passes (m : Moment σ) (signals : Signals) (ms : Nat) : Prop :=
  ∀ now cause, m.Signal signals now cause → m.now + ms ≤ now

theorem Signal.cause_eq (h : m.Signal signals now cause) :
    cause = .cancelled ∨ cause = .deadline signals.deadline := by
  cases h with
  | called | timed => exact .inl rfl
  | deadline => exact .inr rfl

theorem Signal.le (h : m.Signal signals now cause) : m.now ≤ now := by
  cases h with
  | called => exact Nat.le_refl _
  | timed | deadline => exact Nat.le_max_left _ _

theorem signal_of_isCancelled (h : m.isCancelled signals) : m.Signal signals m.now .cancelled := by
  rw [isCancelled, Bool.or_eq_true] at h
  rcases h with hcalled | htimed
  · exact .called hcalled
  · cases hat : signals.at? with
    | none => simp [hat] at htimed
    | some c =>
      have hle : c ≤ m.now := by simpa [hat] using htimed
      simpa [Nat.max_eq_left hle] using Signal.timed (m := m) hat

/-- Before a run is cancelled, only the time of its cancellation and the deadline are to come. -/
theorem signal_iff (hm : ¬ m.isCancelled signals) : m.Signal signals now cause ↔
    signals.at? = some now ∧ cause = .cancelled ∨
      now = max m.now signals.deadline ∧ cause = .deadline signals.deadline := by
  rw [isCancelled, Bool.or_eq_true, not_or] at hm
  have hmax : ∀ c, signals.at? = some c → max m.now c = c := by
    intro c hc
    have hlt : m.now < c := by simpa [hc] using hm.2
    exact Nat.max_eq_right (Nat.le_of_lt hlt)
  constructor
  · intro h
    cases h with
    | called h => exact absurd h hm.1
    | @timed c h => exact .inl ⟨(hmax c h).symm ▸ h, rfl⟩
    | deadline => exact .inr ⟨rfl, rfl⟩
  · rintro (⟨h, rfl⟩ | ⟨rfl, rfl⟩)
    · simpa [hmax now h] using Signal.timed (m := m) h
    · exact .deadline

theorem stops_of_interruption? (h : m.interruption? signals ms = some (now, cause)) :
    m.Stops signals ms now cause := by
  rw [interruption?] at h
  split at h
  · cases h
  split at h
  · next hm =>
    cases h
    exact ⟨signal_of_isCancelled hm, Nat.le_add_right _ _, fun _ _ hs => hs.le⟩
  · next hm =>
    refine ⟨(signal_iff hm).2 ?_, ?_, fun later other hs => ?_⟩
    · grind
    · grind
    · have hle := hs.le
      rw [signal_iff hm] at hs
      grind

theorem passes_of_interruption? (h : m.interruption? signals ms = none) :
    m.Passes signals ms := by
  intro now cause hs
  have hle := hs.le
  rw [interruption?] at h
  split at h
  · next hms => exact hms ▸ hle
  split at h
  · cases h
  · next hm =>
    rw [signal_iff hm] at hs
    grind

end Moment

/--
What becomes of a routine in a race with the signals, and the events on the way. Where a pause ends
just as a signal comes, either may win.
-/
inductive Routine.Races (page : Page σ) (signals : Signals) :
    Routine α → Moment σ → List Event → Except Interrupt α × Moment σ → Prop
  | done (a : α) (m : Moment σ) : Races page signals (.done a) m [] (.ok a, m)
  | stopped {ms : Nat} {next : Unit → Routine α} {m : Moment σ} {now : Nat} {cause : Interrupt}
    (stops : m.Stops signals ms now cause) :
    Races page signals (.ask (.pause ms) next) m [] (.error cause, { m with now })
  | passed {ms : Nat} {next : Unit → Routine α} {m : Moment σ} {es : List Event}
    {ended : Except Interrupt α × Moment σ} (passes : m.Passes signals ms)
    (rest : Races page signals (next ()) { m with now := m.now + ms } es ended) :
    Races page signals (.ask (.pause ms) next) m es ended
  | sent {c : Call} {next : Nat → Routine α} {m : Moment σ} {es : List Event}
    {ended : Except Interrupt α × Moment σ}
    (rest : Races page signals (next (m.send page signals c).1) (m.send page signals c).2 es
      ended) :
    Races page signals (.ask (.send c) next) m (.sent c :: es) ended
  | settled {c : Call} {next : Except PageError c.Answer → Routine α} {m : Moment σ}
    {es : List Event} {ended : Except Interrupt α × Moment σ}
    (rest : Races page signals (next (page.settle m.page m.now c).1)
      { m with page := (page.settle m.page m.now c).2 } es ended) :
    Races page signals (.ask (.settle c) next) m es ended
  | checked {next : Option Interrupt → Routine α} {m : Moment σ} {es : List Event}
    {ended : Except Interrupt α × Moment σ}
    (rest : Races page signals (next (m.stop? signals)) m es ended) :
    Races page signals (.ask .status next) m es ended
  | noted {n : Note} {next : Unit → Routine α} {m : Moment σ} {es : List Event}
    {ended : Except Interrupt α × Moment σ}
    (rest : Races page signals (next ()) { m with ledger := m.ledger.note n } es ended) :
    Races page signals (.ask (.note n) next) m (.noted n :: es) ended

namespace Routine

variable {page : Page σ} {signals : Signals} {p : Routine α} {m : Moment σ} {es : List Event}
  {ended : Except Interrupt α × Moment σ}

/-- A race goes one of the ways that a routine can go. -/
theorem Always.of_races {Q : List Event → Option α → Prop} (h : p.Always Q)
    (race : p.Races page signals m es ended) : Q es ended.1.toOption := by
  induction race generalizing Q with
  | done a m => exact h
  | stopped stops => exact h.1
  | passed passes rest ih => exact ih h.2
  | sent rest ih | settled rest ih | checked rest ih => exact ih (h _)
  | noted rest ih => exact ih h

namespace Races

theorem ledger (race : p.Races page signals m es ended) :
    ended.2.ledger = m.ledger.after es := by
  induction race with
  | done | stopped => rfl
  | passed passes rest ih => exact ih
  | sent rest ih | settled rest ih | checked rest ih | noted rest ih => exact ih

theorem cause_eq (race : p.Races page signals m es ended) {cause : Interrupt}
    (h : ended.1 = .error cause) : cause = .cancelled ∨ cause = .deadline signals.deadline := by
  induction race with
  | done => cases h
  | stopped stops =>
    cases h
    exact stops.signal.cause_eq
  | passed passes rest ih => exact ih h
  | sent rest ih | settled rest ih | checked rest ih | noted rest ih => exact ih h

end Races

end Routine

end PageFlow
