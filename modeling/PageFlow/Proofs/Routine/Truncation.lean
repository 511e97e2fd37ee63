import PageFlow.Proofs.Routine.History

namespace PageFlow

variable {σ α : Type}

namespace Signals

structure QuietUntil (s : Signals) (t : Nat) : Prop where
  calls : ∀ earlier, s.firesIn earlier = fun _ => false
  cancellation : ∀ c, s.at? = some c → t < c
  deadline : t < s.deadline

/-- The first signal comes at a time. -/
inductive Fires : Signals → Nat → Interrupt → Prop
  | cancelled {s : Signals} {c : Nat} (calls : ∀ earlier, s.firesIn earlier = fun _ => false)
    (time : s.at? = some c) (deadline : c ≤ s.deadline) : Fires s c .cancelled
  | deadline {s : Signals} {c : Nat} (calls : ∀ earlier, s.firesIn earlier = fun _ => false)
    (time : s.at? = none) (deadline : s.deadline = c) : Fires s c (.deadline c)

theorem Fires.calls {s : Signals} {c : Nat} {cause : Interrupt} (h : s.Fires c cause)
    (earlier : Nat) : s.firesIn earlier = fun _ => false := by
  cases h with
  | cancelled calls => exact calls earlier
  | deadline calls => exact calls earlier

end Signals

namespace Moment

variable {m : Moment σ} {s : Signals}

theorem interruption?_now_le {ms now : Nat} {cause : Interrupt}
    (h : m.interruption? s ms = some (now, cause)) : m.now ≤ now := by
  rw [interruption?, isCancelled] at h
  grind

theorem stop?_of_quiet {t : Nat} (hm : m.cancelled = false) (hs : s.QuietUntil t) (ht : m.now ≤ t) :
    m.stop? s = none := by
  have hat := hs.cancellation
  have hdeadline := hs.deadline
  rw [stop?, status, Status.stop?, isCancelled]
  grind

theorem interruption?_of_quiet {t ms : Nat} (hm : m.cancelled = false) (hs : s.QuietUntil t)
    (ht : m.now + ms ≤ t) : m.interruption? s ms = none := by
  have hat := hs.cancellation
  have hdeadline := hs.deadline
  rw [interruption?, isCancelled]
  grind

theorem not_quiet_of_interruption? {ms now : Nat} {cause : Interrupt} (hm : m.cancelled = false)
    (h : m.interruption? s ms = some (now, cause)) : ¬ s.QuietUntil now := by
  intro hs
  have hat := hs.cancellation
  have hdeadline := hs.deadline
  rw [interruption?, isCancelled] at h
  grind

theorem stop?_of_fires {c : Nat} {cause : Interrupt} (hm : m.cancelled = false)
    (hs : s.Fires c cause) (ht : m.now < c) : m.stop? s = none := by
  rw [stop?, status, Status.stop?, isCancelled]
  cases hs <;> grind

theorem interruption?_of_fires {c : Nat} {cause : Interrupt} (ms : Nat) (hm : m.cancelled = false)
    (hs : s.Fires c cause) (ht : m.now < c) :
    m.interruption? s ms = if c < m.now + ms then some (c, cause) else none := by
  rw [interruption?, isCancelled]
  cases hs <;> grind

end Moment

theorem Moment.send_congr (m : Moment σ) (page : Page σ) {s s' : Signals} (c : Call)
    (h : s.firesIn m.calls.length = s'.firesIn m.calls.length) :
    m.send page s c = m.send page s' c := by
  unfold Moment.send
  rw [h]

theorem Moment.send_cancelled {m : Moment σ} {page : Page σ} {s : Signals} {c : Call}
    (hm : m.cancelled = false) (hs : s.firesIn m.calls.length c = false) :
    (m.send page s c).2.cancelled = false := by
  simp [Moment.send, hm, hs]

/-- A history up to a time, at which nothing happens. -/
def CutAt (c : Nat) (whole cut : List (Nat × Request)) : Prop :=
  ∃ rest, whole = cut ++ rest ∧ (∀ q ∈ cut, q.1 < c) ∧ ∀ q ∈ rest, c < q.1

namespace CutAt

variable {c : Nat} {whole cut : List (Nat × Request)}

theorem cons (h : CutAt c whole cut) {q : Nat × Request} (hq : q.1 < c) :
    CutAt c (q :: whole) (q :: cut) := by
  obtain ⟨rest, rfl, hcut, hrest⟩ := h
  exact ⟨rest, rfl, List.forall_mem_cons.2 ⟨hq, hcut⟩, hrest⟩

theorem eq_filter (h : CutAt c whole cut) : cut = whole.filter (·.1 < c) := by
  obtain ⟨rest, rfl, hcut, hrest⟩ := h
  have hnone : rest.filter (·.1 < c) = [] :=
    List.filter_eq_nil_iff.2 fun q hq => by simpa using Nat.le_of_lt (hrest q hq)
  have hall : cut.filter (·.1 < c) = cut :=
    List.filter_eq_self.2 fun q hq => by simpa using hcut q hq
  rw [List.filter_append, hnone, hall, List.append_nil]

theorem isPrefix (h : CutAt c whole cut) : cut <+: whole := by
  obtain ⟨rest, rfl, -, -⟩ := h
  exact List.prefix_append cut rest

end CutAt

namespace Routine

variable {page : Page σ} {s s' : Signals}

section

variable {m : Moment σ} {ms : Nat} {next : (Request.pause ms).Reply → Routine α}

theorem run_pause (h : m.interruption? s ms = none) :
    (ask (.pause ms) next).run page s m = (next ()).run page s { m with now := m.now + ms } := by
  simp only [run, h]

theorem asked_pause (h : m.interruption? s ms = none) : (ask (.pause ms) next).asked page s m =
    (m.now, .pause ms) :: (next ()).asked page s { m with now := m.now + ms } := by
  simp only [asked, h]

theorem run_interrupted {now : Nat} {cause : Interrupt}
    (h : m.interruption? s ms = some (now, cause)) :
    (ask (.pause ms) next).run page s m = (.error cause, { m with now }) := by
  simp only [run, h]

theorem asked_interrupted {now : Nat} {cause : Interrupt}
    (h : m.interruption? s ms = some (now, cause)) :
    (ask (.pause ms) next).asked page s m = [(m.now, .pause ms)] := by
  simp only [asked, h]

end

variable (page s)

theorem run_now_le (p : Routine α) (m : Moment σ) : m.now ≤ (p.run page s m).2.now := by
  induction p generalizing m with
  | done a => exact Nat.le_refl _
  | ask r next ih =>
    cases r with
    | pause ms =>
      cases hi : m.interruption? s ms with
      | some i =>
        rw [run_interrupted hi]
        exact Moment.interruption?_now_le hi
      | none =>
        rw [run_pause hi]
        exact Nat.le_of_add_right_le (ih () { m with now := m.now + ms })
    | send c => exact ih _ (m.send page s c).2
    | settle c => exact ih _ { m with page := (page.settle m.page m.now c).2 }
    | status => exact ih _ m
    | note n => exact ih _ { m with ledger := m.ledger.note n }

theorem asked_now_le (p : Routine α) (m : Moment σ) : ∀ q ∈ p.asked page s m, m.now ≤ q.1 := by
  induction p generalizing m with
  | done a => exact fun q hq => by cases hq
  | ask r next ih =>
    cases r with
    | pause ms =>
      cases hi : m.interruption? s ms with
      | some i =>
        rw [asked_interrupted hi]
        simp
      | none =>
        rw [asked_pause hi]
        refine List.forall_mem_cons.2 ⟨Nat.le_refl _, fun q hq => ?_⟩
        exact Nat.le_of_add_right_le (ih () { m with now := m.now + ms } q hq)
    | send c => exact List.forall_mem_cons.2 ⟨Nat.le_refl _, ih _ (m.send page s c).2⟩
    | settle c =>
      exact List.forall_mem_cons.2
        ⟨Nat.le_refl _, ih _ { m with page := (page.settle m.page m.now c).2 }⟩
    | status => exact List.forall_mem_cons.2 ⟨Nat.le_refl _, ih _ m⟩
    | note n =>
      exact List.forall_mem_cons.2 ⟨Nat.le_refl _, ih _ { m with ledger := m.ledger.note n }⟩

/-- A run asks for something at the time at which it stands, or it is over. -/
theorem asked_or_over (p : Routine α) (m : Moment σ) :
    (∃ r, (m.now, r) ∈ p.asked page s m) ∨ (p.run page s m).2.now = m.now := by
  cases p with
  | done a => exact .inr rfl
  | ask r next =>
    refine .inl ⟨r, ?_⟩
    cases r <;> exact List.mem_cons_self

variable {page s}

theorem run_eq_of_quiet {p : Routine α} {m : Moment σ} (hm : m.cancelled = false)
    (hs : s.QuietUntil (p.run page s m).2.now) (hs' : s'.QuietUntil (p.run page s m).2.now) :
    p.run page s' m = p.run page s m := by
  induction p generalizing m with
  | done a => rfl
  | ask r next ih =>
    cases r with
    | pause ms =>
      cases hi : m.interruption? s ms with
      | some i =>
        rw [run_interrupted hi] at hs
        exact absurd hs (Moment.not_quiet_of_interruption? hm hi)
      | none =>
        rw [run_pause hi] at hs hs' ⊢
        have hle := run_now_le page s (next ()) { m with now := m.now + ms }
        rw [run_pause (Moment.interruption?_of_quiet hm hs' hle)]
        exact ih () hm hs hs'
    | send c =>
      have hsend := m.send_congr page c ((hs'.calls _).trans (hs.calls _).symm)
      change (next (m.send page s' c).1).run page s' (m.send page s' c).2 = _
      rw [hsend]
      exact ih _ (Moment.send_cancelled hm (congrFun (hs.calls _) c)) hs hs'
    | settle c => exact ih _ hm hs hs'
    | status =>
      have hle : m.now ≤ ((next (m.stop? s)).run page s m).2.now := run_now_le page s _ m
      have hstop : m.stop? s' = m.stop? s :=
        (Moment.stop?_of_quiet hm hs' hle).trans (Moment.stop?_of_quiet hm hs hle).symm
      change (next (m.stop? s')).run page s' m = _
      rw [hstop]
      exact ih _ hm hs hs'
    | note n => exact ih _ hm hs hs'

/--
The run that a signal interrupts is the run that no signal reaches up to the time of the signal, if
nothing happens in the one without the signal at this very time.
-/
theorem run_cut {p : Routine α} {m : Moment σ} {c : Nat} {cause : Interrupt}
    (hm : m.cancelled = false) (hs : s.QuietUntil (p.run page s m).2.now) (hs' : s'.Fires c cause)
    (hnow : m.now < c) (hend : c < (p.run page s m).2.now)
    (hasked : ∀ q ∈ p.asked page s m, q.1 ≠ c) :
    (p.run page s' m).1 = .error cause ∧ (p.run page s' m).2.now = c ∧
      CutAt c (p.asked page s m) (p.asked page s' m) := by
  induction p generalizing m with
  | done a => exact absurd hend (Nat.lt_asymm hnow)
  | ask r next ih =>
    cases r with
    | pause ms =>
      cases hi : m.interruption? s ms with
      | some i =>
        rw [run_interrupted hi] at hs
        exact absurd hs (Moment.not_quiet_of_interruption? hm hi)
      | none =>
        rw [run_pause hi] at hs hend
        rw [asked_pause hi] at hasked ⊢
        have hi' := Moment.interruption?_of_fires ms hm hs' hnow
        by_cases hc : c < m.now + ms
        · rw [if_pos hc] at hi'
          rw [run_interrupted hi', asked_interrupted hi']
          refine ⟨rfl, rfl, (next ()).asked page s { m with now := m.now + ms }, rfl, ?_, ?_⟩
          · simpa using hnow
          · intro q hq
            have hlater := asked_now_le page s (next ()) { m with now := m.now + ms } q hq
            exact Nat.lt_of_lt_of_le hc hlater
        · rw [if_neg hc] at hi'
          rw [run_pause hi', asked_pause hi']
          have hne : m.now + ms ≠ c := by
            rcases asked_or_over page s (next ()) { m with now := m.now + ms } with ⟨r, hr⟩ | hover
            · exact hasked _ (List.mem_cons_of_mem _ hr)
            · exact absurd (Nat.lt_of_lt_of_eq hend hover) hc
          have hlt : m.now + ms < c := by omega
          obtain ⟨herror, htime, hcut⟩ := ih () (m := { m with now := m.now + ms }) hm hs hlt hend
            fun q hq => hasked q (List.mem_cons_of_mem _ hq)
          exact ⟨herror, htime, hcut.cons hnow⟩
    | send call =>
      have hsend := m.send_congr page call ((hs'.calls _).trans (hs.calls _).symm)
      obtain ⟨herror, htime, hcut⟩ := ih _ (m := (m.send page s call).2)
        (Moment.send_cancelled hm (congrFun (hs.calls _) call)) hs hnow hend
        fun q hq => hasked q (List.mem_cons_of_mem _ hq)
      change ((next (m.send page s' call).1).run page s' (m.send page s' call).2).1 = _ ∧
        ((next (m.send page s' call).1).run page s' (m.send page s' call).2).2.now = _ ∧
        CutAt c (_ :: _) (_ :: (next (m.send page s' call).1).asked page s' (m.send page s' call).2)
      rw [hsend]
      exact ⟨herror, htime, hcut.cons hnow⟩
    | settle call =>
      obtain ⟨herror, htime, hcut⟩ :=
        ih _ (m := { m with page := (page.settle m.page m.now call).2 })
        hm hs hnow hend fun q hq => hasked q (List.mem_cons_of_mem _ hq)
      exact ⟨herror, htime, hcut.cons hnow⟩
    | status =>
      have hle : m.now ≤ ((next (m.stop? s)).run page s m).2.now := run_now_le page s _ m
      have hstop : m.stop? s' = m.stop? s :=
        (Moment.stop?_of_fires hm hs' hnow).trans (Moment.stop?_of_quiet hm hs hle).symm
      obtain ⟨herror, htime, hcut⟩ := ih (m.stop? s) hm hs hnow hend
        fun q hq => hasked q (List.mem_cons_of_mem _ hq)
      change ((next (m.stop? s')).run page s' m).1 = _ ∧
        ((next (m.stop? s')).run page s' m).2.now = _ ∧
        CutAt c (_ :: _) (_ :: (next (m.stop? s')).asked page s' m)
      rw [hstop]
      exact ⟨herror, htime, hcut.cons hnow⟩
    | note n =>
      obtain ⟨herror, htime, hcut⟩ :=
        ih () (m := { m with ledger := m.ledger.note n }) hm hs hnow hend
        fun q hq => hasked q (List.mem_cons_of_mem _ hq)
      exact ⟨herror, htime, hcut.cons hnow⟩

end Routine

end PageFlow
