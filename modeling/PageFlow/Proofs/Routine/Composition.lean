import PageFlow.Proofs.Routine.Truncation

namespace PageFlow

variable {σ α β : Type} {page : Page σ} {s : Signals}

namespace Moment

def fresh (m : Moment σ) : Moment σ :=
  { m with ledger := {} }

def noted (m : Moment σ) (news : News) : Moment σ :=
  { m with ledger := m.ledger.note { news } }

@[simp] theorem fresh_noted (m : Moment σ) (news : News) : (m.noted news).fresh = m.fresh := rfl

variable {m : Moment σ} {ms now : Nat} {cause : Interrupt}

theorem interruption?_le_now (h : m.interruption? s ms = some (now, cause)) : now ≤ m.now + ms := by
  rw [interruption?] at h
  grind

/-- What does not interrupt a pause up to a time does not interrupt a shorter one until then. -/
theorem interruption?_of_shorter {limit : Nat} (hle : limit ≤ ms)
    (h : ∀ now cause, m.interruption? s ms = some (now, cause) → m.now + limit < now) :
    m.interruption? s limit = none := by
  have hms := h
  rw [interruption?, isCancelled] at hms ⊢
  grind

/-- What has interrupted a run stops it from then on. -/
theorem stop?_of_interruption? (h : m.interruption? s ms = some (now, cause)) {later : Nat}
    (hlater : now ≤ later) : Moment.stop? { m with now := later } s ≠ none := by
  rw [interruption?, isCancelled] at h
  rw [stop?, status, Status.stop?, isCancelled]
  grind

end Moment

namespace Routine

theorem run_bind (p : Routine α) (f : α → Routine β) (m : Moment σ) :
    (p >>= f).run page s m = match p.run page s m with
      | (.ok a, m') => (f a).run page s m'
      | (.error cause, m') => (.error cause, m') := by
  change (p.bind f).run page s m = _
  induction p generalizing m with
  | done a => rfl
  | ask r next ih =>
    cases r with
    | pause ms =>
      rw [bind_ask]
      cases hi : m.interruption? s ms with
      | some i =>
        rw [run_interrupted hi, run_interrupted hi]
      | none =>
        rw [run_pause hi, run_pause hi]
        exact ih () _
    | send c => exact ih _ _
    | settle c => exact ih _ _
    | status => exact ih _ _
    | note n => exact ih () _

theorem run_pause_bind {m : Moment σ} {ms : Nat} (h : m.interruption? s ms = none)
    (f : Unit → Routine β) :
    (pause ms >>= f).run page s m = (f ()).run page s { m with now := m.now + ms } :=
  run_pause h

theorem run_interrupted_bind {m : Moment σ} {ms now : Nat} {cause : Interrupt}
    (h : m.interruption? s ms = some (now, cause)) (f : Unit → Routine β) :
    (pause ms >>= f).run page s m = (.error cause, { m with now }) :=
  run_interrupted h

theorem run_status_bind (f : Option Interrupt → Routine β) (m : Moment σ) :
    (status >>= f).run page s m = (f (m.stop? s)).run page s m :=
  rfl

theorem run_note_bind (news : News) (f : Unit → Routine β) (m : Moment σ) :
    (note news >>= f).run page s m = (f ()).run page s (m.noted news) :=
  rfl

/-- What a turn comes to, from the run of what it consists in; the records around it are kept. -/
def gathered (outer : Ledger) (run : Except Interrupt α × Moment σ) :
    Except Interrupt (α × List Entry) × Moment σ :=
  (run.1.map fun a => (a, run.2.ledger.entries), { run.2 with ledger := outer })

theorem of_gathered_ok {outer : Ledger} {run : Except Interrupt α × Moment σ} {r : α × List Entry}
    (h : (gathered outer run).1 = .ok r) : run.1 = .ok r.1 ∧ r.2 = run.2.ledger.entries := by
  obtain ⟨result, m⟩ := run
  cases result with
  | error cause => cases h
  | ok a =>
    cases h
    exact ⟨rfl, rfl⟩

theorem of_gathered_error {outer : Ledger} {run : Except Interrupt α × Moment σ} {cause : Interrupt}
    (h : (gathered outer run).1 = .error cause) : run.1 = .error cause := by
  obtain ⟨result, m⟩ := run
  cases result with
  | error cause =>
    cases h
    rfl
  | ok a => cases h

theorem run_collect (p : Routine α) (turn : Turn) (own : Ledger) (m : Moment σ) :
    (p.collect turn own.entries).run page s m =
      gathered m.ledger (p.run page s { m with ledger := own }) := by
  induction p generalizing m own with
  | done a => rfl
  | ask r next ih =>
    cases r with
    | pause ms =>
      have hsame : Moment.interruption? { m with ledger := own } s ms = m.interruption? s ms := rfl
      cases hi : m.interruption? s ms with
      | some i =>
        rw [run_interrupted (hsame.trans hi)]
        exact run_interrupted hi
      | none =>
        rw [run_pause (hsame.trans hi)]
        refine (run_pause hi).trans ?_
        exact ih () own { m with now := m.now + ms }
    | send c => exact ih _ own (m.send page s c).2
    | settle c => exact ih _ own { m with page := (page.settle m.page m.now c).2 }
    | status => exact ih _ own m
    | note n =>
      have hinside : m.ledger.note (n.inside turn) = m.ledger := by
        obtain ⟨news, place⟩ := n
        cases news <;> rfl
      have hnext := ih () (own.note n) m
      rw [Ledger.note_entries] at hnext
      change ((next ()).collect turn (own.entries ++ n.entry?.toList)).run page s
        { m with ledger := m.ledger.note (n.inside turn) } = _
      rw [hinside]
      exact hnext

theorem run_collect_bind (p : Routine α) (turn : Turn) (f : α × List Entry → Routine β)
    (m : Moment σ) : (p.collect turn [] >>= f).run page s m = match p.run page s m.fresh with
      | (.ok a, m') => (f (a, m'.ledger.entries)).run page s { m' with ledger := m.ledger }
      | (.error cause, m') => (.error cause, { m' with ledger := m.ledger }) := by
  have hturn : (p.collect turn []).run page s m =
      gathered m.ledger (p.run page s m.fresh) := run_collect p turn {} m
  refine (run_bind (p.collect turn []) f m).trans ?_
  rw [hturn]
  generalize p.run page s m.fresh = run
  obtain ⟨r, m'⟩ := run
  cases r <;> rfl

section

variable {p : Routine α} {m : Moment σ} {limit : Nat}

theorem run_within_of_le {a : α} (h : (p.run page s m).1 = .ok a)
    (hle : (p.run page s m).2.now ≤ m.now + limit) :
    (p.within limit).run page s m = (.ok (some a), (p.run page s m).2) := by
  induction p generalizing m limit with
  | done b =>
    cases h
    rfl
  | ask r next ih =>
    cases r with
    | pause ms =>
      cases hi : m.interruption? s ms with
      | some i =>
        rw [run_interrupted hi] at h
        cases h
      | none =>
        rw [run_pause hi] at h hle ⊢
        have hlater := run_now_le page s (next ()) { m with now := m.now + ms }
        have hms : ms ≤ limit := by
          have hsum : m.now + ms ≤ m.now + limit := Nat.le_trans hlater hle
          omega
        rw [within, if_pos hms, run_pause hi]
        refine ih () h (Nat.le_trans hle ?_)
        change m.now + limit ≤ m.now + ms + (limit - ms)
        omega
    | send c => exact ih _ h hle
    | settle c => exact ih _ h hle
    | status => exact ih _ h hle
    | note n => exact ih () h hle

theorem interruption?_of_run_lt {ms : Nat} {next : (Request.pause ms).Reply → Routine α}
    (hms : ¬ ms ≤ limit) (h : m.now + limit < ((ask (.pause ms) next).run page s m).2.now) :
    m.interruption? s limit = none := by
  apply Moment.interruption?_of_shorter (Nat.le_of_not_le hms)
  intro now cause hi
  rw [run_interrupted hi] at h
  exact h

/-- A longer run is cut off when the time is over. -/
theorem run_within_of_lt (h : m.now + limit < (p.run page s m).2.now) :
    ((p.within limit).run page s m).1 = .ok none ∧
      ((p.within limit).run page s m).2.now = m.now + limit := by
  induction p generalizing m limit with
  | done a => exact absurd h (Nat.not_lt_of_le (Nat.le_add_right _ _))
  | ask r next ih =>
    cases r with
    | pause ms =>
      by_cases hms : ms ≤ limit
      · rw [within, if_pos hms]
        cases hi : m.interruption? s ms with
        | some i =>
          -- The pause is within the limit, and what interrupts it comes no later than its end.
          rw [run_interrupted hi] at h
          have htime : i.1 ≤ m.now + ms := Moment.interruption?_le_now hi
          have hover : m.now + limit < i.1 := h
          omega
        | none =>
          rw [run_pause hi] at h ⊢
          have hsum : m.now + ms + (limit - ms) = m.now + limit := by omega
          have hrest := @ih () { m with now := m.now + ms } (limit - ms) (hsum ▸ h)
          exact ⟨hrest.1, hrest.2.trans hsum⟩
      · have hnone := interruption?_of_run_lt hms h
        rw [within, if_neg hms, run_pause hnone]
        exact ⟨rfl, rfl⟩
    | send c => exact ih _ h
    | settle c => exact ih _ h
    | status => exact ih _ h
    | note n => exact ih () h

/-- `g` sees the same of two histories up to a time if it does after a request before that time. -/
theorem filterMap_cons_filter {γ : Type} {g : Nat × Request → Option γ}
    {q : Nat × Request} {cut whole : List (Nat × Request)} {t : Nat} (hq : q.1 ≤ t)
    (h : cut.filterMap g = (whole.filter (·.1 ≤ t)).filterMap g) :
    (q :: cut).filterMap g = ((q :: whole).filter (·.1 ≤ t)).filterMap g := by
  rw [List.filter_cons_of_pos (by simpa using hq), List.filterMap_cons, List.filterMap_cons, h]

/-- Up to the end of the time, a routine that is cut off asks for the same, its last pause apart. -/
theorem asked_within_of_lt {γ : Type} {g : Nat × Request → Option γ}
    (hg : ∀ t ms, g (t, .pause ms) = none) (h : m.now + limit < (p.run page s m).2.now) :
    ((p.within limit).asked page s m).filterMap g =
      ((p.asked page s m).filter (·.1 ≤ m.now + limit)).filterMap g := by
  induction p generalizing m limit with
  | done a => rfl
  | ask r next ih =>
    cases r with
    | pause ms =>
      by_cases hms : ms ≤ limit
      · rw [within, if_pos hms]
        cases hi : m.interruption? s ms with
        | some i =>
          rw [asked_interrupted hi, asked_interrupted hi]
          simp [hg]
        | none =>
          rw [run_pause hi] at h
          rw [asked_pause hi, asked_pause hi]
          have hsum : m.now + ms + (limit - ms) = m.now + limit := by omega
          have hrest := @ih () { m with now := m.now + ms } (limit - ms) (hsum ▸ h)
          dsimp only at hrest
          rw [hsum] at hrest
          simp [hg, hrest]
      · have hnone := interruption?_of_run_lt hms h
        rw [within, if_neg hms, asked_pause hnone]
        cases hi : m.interruption? s ms with
        | some i =>
          rw [asked_interrupted hi]
          simp [hg, asked]
        | none =>
          have hover : ((next ()).asked page s { m with now := m.now + ms }).filter
              (·.1 ≤ m.now + limit) = [] := by
            refine List.filter_eq_nil_iff.2 fun q hq => ?_
            have hlater : m.now + ms ≤ q.1 := asked_now_le page s (next ()) _ q hq
            simpa using (by omega : m.now + limit < q.1)
          rw [asked_pause hi]
          simp [hg, asked, hover]
    | send c => exact filterMap_cons_filter (Nat.le_add_right _ _) (ih _ h)
    | settle c => exact filterMap_cons_filter (Nat.le_add_right _ _) (ih _ h)
    | status => exact filterMap_cons_filter (Nat.le_add_right _ _) (ih _ h)
    | note n => exact filterMap_cons_filter (Nat.le_add_right _ _) (ih () h)

theorem stop?_of_run_within {cause : Interrupt} (h : (p.run page s m).1 = .error cause)
    (hle : (p.run page s m).2.now ≤ m.now + limit) :
    ((p.within limit).run page s m).2.stop? s ≠ none := by
  induction p generalizing m limit with
  | done a => cases h
  | ask r next ih =>
    cases r with
    | pause ms =>
      by_cases hms : ms ≤ limit
      · rw [within, if_pos hms]
        cases hi : m.interruption? s ms with
        | some i =>
          rw [run_interrupted hi]
          exact Moment.stop?_of_interruption? hi (Nat.le_refl _)
        | none =>
          rw [run_pause hi] at h hle ⊢
          refine ih () h (Nat.le_trans hle ?_)
          change m.now + limit ≤ m.now + ms + (limit - ms)
          omega
      · rw [within, if_neg hms]
        cases hcut : m.interruption? s limit with
        | some i =>
          rw [run_interrupted hcut]
          exact Moment.stop?_of_interruption? hcut (Nat.le_refl _)
        | none =>
          rw [run_pause hcut]
          cases hi : m.interruption? s ms with
          | some i =>
            rw [run_interrupted hi] at hle
            exact Moment.stop?_of_interruption? hi hle
          | none =>
            rw [run_pause hi] at hle
            have hlater := run_now_le page s (next ()) { m with now := m.now + ms }
            have hsum : m.now + ms ≤ m.now + limit := Nat.le_trans hlater hle
            omega
    | send c => exact ih _ h hle
    | settle c => exact ih _ h hle
    | status => exact ih _ h hle
    | note n => exact ih () h hle

end

end Routine

end PageFlow
