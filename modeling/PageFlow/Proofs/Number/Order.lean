import PageFlow.Number.Double

namespace PageFlow

inductive ExactlyOne (p q r : Prop) : Prop
  | first (hp : p) (hq : ¬ q) (hr : ¬ r)
  | second (hp : ¬ p) (hq : q) (hr : ¬ r)
  | third (hp : ¬ p) (hq : ¬ q) (hr : r)

namespace Double

variable {x y : Double}

theorem exists_signed (h : x.isNaN = false) : ∃ negative m, x = .signed negative m := by
  cases x with
  | nan => cases h
  | signed negative m => exact ⟨negative, m, rfl⟩

theorem eq_nan (h : x.isNaN) : x = .nan := by
  cases x with
  | nan => rfl
  | signed negative m => cases h

theorem same_comm (x y : Double) : x.same y = y.same x := by
  cases x with
  | nan => cases y <;> rfl
  | signed s a =>
    cases y with
    | nan => rfl
    | signed t b => exact BEq.comm

theorem same_self (x : Double) : x.same x = !x.isNaN := by
  cases x with
  | nan => rfl
  | signed negative m => exact beq_self_eq_true _

section

variable (hx : x.isNaN = false) (hy : y.isNaN = false)
include hx hy

theorem trichotomy : ExactlyOne (x.less y) (y.less x) (x.same y) := by
  obtain ⟨s, a, rfl⟩ := exists_signed hx
  obtain ⟨t, b, rfl⟩ := exists_signed hy
  simp only [less, same, decide_eq_true_eq, beq_iff_eq]
  rcases Int.lt_trichotomy (place s a) (place t b) with hlt | heq | hgt
  · exact .first hlt (by omega) (by omega)
  · exact .third (by omega) (by omega) heq
  · exact .second (by omega) hgt (by omega)

theorem atMost_iff_not_less : x.atMost y ↔ ¬ y.less x := by
  obtain ⟨s, a, rfl⟩ := exists_signed hx
  obtain ⟨t, b, rfl⟩ := exists_signed hy
  simp [atMost, less]

end

theorem same_of_atMost (h : x.atMost y) (h' : y.atMost x) : x.same y := by
  cases x with
  | nan => cases h
  | signed s a =>
    cases y with
    | nan => cases h
    | signed t b =>
      simp only [atMost, decide_eq_true_eq] at h h'
      exact beq_iff_eq.2 (Int.le_antisymm h h')

theorem unordered (h : x.isNaN ∨ y.isNaN) : x.less y = false ∧ x.atMost y = false := by
  rcases h with h | h
  · obtain rfl := eq_nan h
    exact ⟨rfl, rfl⟩
  · obtain rfl := eq_nan h
    cases x <;> exact ⟨rfl, rfl⟩

end Double

end PageFlow
