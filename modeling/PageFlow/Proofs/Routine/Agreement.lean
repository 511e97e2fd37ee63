import PageFlow.Proofs.Routine.History

namespace PageFlow

namespace Routine

variable {σ α β : Type} {p q : Routine α} {bad : α → Prop}

/-- The routine has nothing left to do but to report, and ends with a bad value. -/
def GivesUp (bad : α → Prop) : Routine α → Prop
  | done a => bad a
  | ask (.note _) next => (next ()).GivesUp bad
  | ask (.pause _) _ | ask (.send _) _ | ask (.settle _) _ | ask .status _ => False

namespace GivesUp

theorem bind {f : α → Routine β} {bad' : β → Prop} (h : p.GivesUp bad)
    (hf : ∀ a, bad a → (f a).GivesUp bad') : (p.bind f).GivesUp bad' := by
  induction p with
  | done a => exact hf a h
  | ask r next ih =>
    cases r with
    | note n => exact ih () h
    | pause | send | settle | status => exact h.elim

theorem within (h : p.GivesUp bad) (limit : Nat) :
    (p.within limit).GivesUp fun r => ∃ a, r = some a ∧ bad a := by
  induction p with
  | done a => exact ⟨a, rfl, h⟩
  | ask r next ih =>
    cases r with
    | note n => exact ih () h
    | pause | send | settle | status => exact h.elim

theorem collect (h : p.GivesUp bad) (turn : Turn) (soFar : List Entry) :
    (p.collect turn soFar).GivesUp fun r => bad r.1 := by
  induction p generalizing soFar with
  | done a => exact h
  | ask r next ih =>
    cases r with
    | note n => exact ih () h _
    | pause | send | settle | status => exact h.elim

theorem run (h : p.GivesUp bad) (page : Page σ) (signals : Signals) (m : Moment σ) :
    ∃ a, (p.run page signals m).1 = .ok a ∧ bad a ∧ (p.run page signals m).2.calls = m.calls := by
  induction p generalizing m with
  | done a => exact ⟨a, rfl, h, rfl⟩
  | ask r next ih =>
    cases r with
    | note n => exact ih () h _
    | pause | send | settle | status => exact h.elim

end GivesUp

/-- Two routines ask the same of the world, until the first gives up if it does. -/
inductive UpTo (bad : α → Prop) : Routine α → Routine α → Prop
  | givesUp {p q : Routine α} (h : p.GivesUp bad) : UpTo bad p q
  | done (a : α) : UpTo bad (done a) (done a)
  | ask (r : Request) {next next' : r.Reply → Routine α}
    (h : ∀ answer, UpTo bad (next answer) (next' answer)) : UpTo bad (ask r next) (ask r next')

namespace UpTo

theorem refl (p : Routine α) : UpTo bad p p := by
  induction p with
  | done a => exact .done a
  | ask r next ih => exact .ask r ih

theorem bind {f g : α → Routine β} {bad' : β → Prop} (h : UpTo bad p q)
    (hbad : ∀ a, bad a → (f a).GivesUp bad') (hf : ∀ a, UpTo bad' (f a) (g a)) :
    UpTo bad' (p.bind f) (q.bind g) := by
  induction h with
  | givesUp h => exact .givesUp (h.bind hbad)
  | done a => exact hf a
  | ask r h ih => exact .ask r ih

theorem within (h : UpTo bad p q) (limit : Nat) :
    UpTo (fun r => ∃ a, r = some a ∧ bad a) (p.within limit) (q.within limit) := by
  induction h generalizing limit with
  | givesUp h => exact .givesUp (h.within limit)
  | done a => exact .done _
  | ask r h ih =>
    cases r with
    | pause ms =>
      rw [Routine.within, Routine.within]
      split
      · exact .ask _ fun answer => ih answer _
      · exact .refl _
    | send c => exact .ask _ fun answer => ih answer limit
    | settle c => exact .ask _ fun answer => ih answer limit
    | status => exact .ask _ fun answer => ih answer limit
    | note n => exact .ask _ fun answer => ih answer limit

theorem collect (h : UpTo bad p q) (turn : Turn) (soFar : List Entry) :
    UpTo (fun r => bad r.1) (p.collect turn soFar) (q.collect turn soFar) := by
  induction h generalizing soFar with
  | givesUp h => exact .givesUp (h.collect turn soFar)
  | done a => exact .done _
  | ask r h ih =>
    cases r with
    | pause ms => exact .ask _ fun answer => ih answer soFar
    | send c => exact .ask _ fun answer => ih answer soFar
    | settle c => exact .ask _ fun answer => ih answer soFar
    | status => exact .ask _ fun answer => ih answer soFar
    | note n => exact .ask _ fun answer => ih answer _

/--
In time, the first routine gives up, with no call that the second does not make, or both do the
same.
-/
theorem run (h : UpTo bad p q) (page : Page σ) (signals : Signals) (m : Moment σ) :
    (∃ a, (p.run page signals m).1 = .ok a ∧ bad a ∧
        (p.run page signals m).2.calls <+: (q.run page signals m).2.calls) ∨
      p.run page signals m = q.run page signals m := by
  induction h generalizing m with
  | @givesUp p q h =>
    obtain ⟨a, hrun, hbad, hcalls⟩ := h.run page signals m
    have hlater := q.run_calls page signals m
    rw [hcalls, hlater]
    exact .inl ⟨a, hrun, hbad, List.prefix_append _ _⟩
  | done a => exact .inr rfl
  | ask r h ih =>
    cases r with
    | pause ms =>
      rw [Routine.run, Routine.run]
      cases m.interruption? signals ms with
      | some i => exact .inr rfl
      | none => exact ih () _
    | send c => exact ih _ _
    | settle c => exact ih _ _
    | status => exact ih _ _
    | note n => exact ih () _

end UpTo

end Routine

end PageFlow
