import PageFlow.Proofs.Routine.History

namespace PageFlow

namespace Routine

variable {α β : Type}

/-- The routine makes at most so many requests, however the world answers. -/
def Ends : Nat → Routine α → Prop
  | _, done _ => True
  | 0, ask _ _ => False
  | n + 1, ask _ next => ∀ answer, (next answer).Ends n

theorem ends_done (n : Nat) (a : α) : (done a).Ends n := by
  cases n <;> trivial

theorem ends_pure (n : Nat) (a : α) : (pure a : Routine α).Ends n :=
  ends_done n a

namespace Ends

variable {p : Routine α} {m n : Nat}

theorem mono (h : p.Ends m) (hle : m ≤ n) : p.Ends n := by
  induction p generalizing m n with
  | done a => exact ends_done n a
  | ask r next ih =>
    cases m with
    | zero => exact h.elim
    | succ m =>
      obtain ⟨n, rfl⟩ := Nat.exists_eq_add_of_lt (Nat.lt_of_succ_le hle)
      exact fun answer => ih answer (h answer) (by omega)

theorem bind {f : α → Routine β} (h : p.Ends m) (hf : ∀ a, (f a).Ends n) :
    (p.bind f).Ends (m + n) := by
  induction p generalizing m with
  | done a => exact (hf a).mono (Nat.le_add_left n m)
  | ask r next ih =>
    cases m with
    | zero => exact h.elim
    | succ m =>
      rw [Nat.succ_add]
      exact fun answer => ih answer (h answer)

theorem within {limit : Nat} (h : p.Ends n) : (p.within limit).Ends n := by
  induction p generalizing n limit with
  | done a => exact ends_done n _
  | ask r next ih =>
    cases n with
    | zero => exact h.elim
    | succ n =>
      cases r with
      | pause ms =>
        rw [Routine.within]
        split
        · exact fun answer => ih answer (h answer)
        · exact fun answer => ends_done n none
      | send c => exact fun answer => ih answer (h answer)
      | settle c => exact fun answer => ih answer (h answer)
      | status => exact fun answer => ih answer (h answer)
      | note note => exact fun answer => ih answer (h answer)

theorem collect {turn : Turn} {soFar : List Entry} (h : p.Ends n) :
    (p.collect turn soFar).Ends n := by
  induction p generalizing n soFar with
  | done a => exact ends_done n _
  | ask r next ih =>
    cases n with
    | zero => exact h.elim
    | succ n =>
      cases r with
      | pause ms => exact fun answer => ih answer (h answer)
      | send c => exact fun answer => ih answer (h answer)
      | settle c => exact fun answer => ih answer (h answer)
      | status => exact fun answer => ih answer (h answer)
      | note note => exact fun answer => ih answer (h answer)

theorem length_asked {σ : Type} (h : p.Ends n) (page : Page σ) (signals : Signals) (m : Moment σ) :
    (p.asked page signals m).length ≤ n := by
  induction p generalizing n m with
  | done a => exact Nat.zero_le n
  | ask r next ih =>
    cases n with
    | zero => exact h.elim
    | succ n =>
      cases r with
      | pause ms =>
        rw [asked]
        cases m.interruption? signals ms with
        | some i => exact Nat.succ_le_succ (Nat.zero_le n)
        | none => exact Nat.succ_le_succ (ih _ (h _) _)
      | send c => exact Nat.succ_le_succ (ih _ (h _) _)
      | settle c => exact Nat.succ_le_succ (ih _ (h _) _)
      | status => exact Nat.succ_le_succ (ih _ (h _) _)
      | note note => exact Nat.succ_le_succ (ih _ (h _) _)

end Ends

variable {n : Nat}

theorem ends_raise (e : ActionError) : (raise e : Routine (Outcome α)).Ends (n + 1) :=
  fun _ => ends_done n _

theorem ends_note_bind {news : News} {f : Unit → Routine β} (h : (f ()).Ends n) :
    (note news >>= f).Ends (n + 1) :=
  fun _ => h

theorem ends_pause_bind {ms : Nat} {f : Unit → Routine β} (h : (f ()).Ends n) :
    (pause ms >>= f).Ends (n + 1) :=
  fun _ => h

theorem ends_status_bind {f : Option Interrupt → Routine β} (h : ∀ s, (f s).Ends n) :
    (status >>= f).Ends (n + 1) :=
  h

theorem ends_call (c : Call) : (call c).Ends 3 :=
  fun _ _ _ => trivial

end Routine

end PageFlow
