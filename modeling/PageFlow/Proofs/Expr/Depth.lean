import PageFlow.Expr.Eval

namespace PageFlow

namespace BinaryOp

def decides (op : BinaryOp) (l : Value) : Bool :=
  match op with
  | .and => !l.truthy
  | .or => l.truthy
  | _ => false

/-- The value where the left operand alone does not make it. -/
def combine (op : BinaryOp) (l r : Value) : Value :=
  match op with
  | .and | .or => r
  | .eq => .bool (l.looseEq r)
  | .notEq => .bool !(l.looseEq r)
  | op => .bool (op.orders l r)

/-- Whether the right operand is evaluated once the left one has come to something. -/
def goesOn (op : BinaryOp) : Except Flaw Value → Bool
  | .ok l => !op.decides l
  | .error _ => false

def apply (op : BinaryOp) (l r : Except Flaw Value) : Except Flaw Value :=
  match l with
  | .error flaw => .error flaw
  | .ok l => if op.decides l then .ok l else r.map (op.combine l)

theorem apply_of_not_goesOn {op : BinaryOp} {l : Except Flaw Value} (h : op.goesOn l = false)
    (r : Except Flaw Value) : op.apply l r = l := by
  cases l with
  | error flaw => rfl
  | ok l =>
    have hd : op.decides l = true := by simpa [goesOn] using h
    exact if_pos hd

theorem apply_error_of_goesOn {op : BinaryOp} {l : Except Flaw Value} (h : op.goesOn l = true)
    (flaw : Flaw) : op.apply l (.error flaw) = .error flaw := by
  cases l with
  | error _ => cases h
  | ok l =>
    have hd : ¬ op.decides l = true := by simpa [goesOn] using h
    exact if_neg hd

theorem apply_eq_error {op : BinaryOp} {l r : Except Flaw Value} {flaw : Flaw}
    (h : op.apply l r = .error flaw) : l = .error flaw ∨ r = .error flaw := by
  cases hon : op.goesOn l with
  | false =>
    rw [apply_of_not_goesOn hon] at h
    exact .inl h
  | true =>
    cases r with
    | error other =>
      rw [apply_error_of_goesOn hon] at h
      exact .inr h
    | ok r =>
      cases l with
      | error other => cases hon
      | ok l =>
        have hd : ¬ op.decides l = true := by simpa [goesOn] using hon
        rw [apply, if_neg hd] at h
        cases h

end BinaryOp

namespace Expr

/-- The value of a tree of any depth. -/
def meaning (vars : Variables) : Expr → Except Flaw Value
  | number value _ => .ok (.number value)
  | string value _ => .ok (.text value)
  | bool value _ => .ok (.bool value)
  | null _ => .ok .null
  | path name pos => (Path.resolve name vars).mapError fun fault => ⟨.path fault, pos⟩
  | not operand _ => (operand.meaning vars).map fun v => .bool !v.truthy
  | binary op left right _ => op.apply (left.meaning vars) (right.meaning vars)

/-- The nodes that evaluation reaches before it ends or fails, in order, each with its depth. -/
def visits (vars : Variables) (depth : Nat) (e : Expr) : List (Nat × Expr) :=
  (depth, e) :: match e with
    | not operand _ => operand.visits vars (depth + 1)
    | binary op left right _ =>
      left.visits vars (depth + 1) ++
        if op.goesOn (left.meaning vars) then right.visits vars (depth + 1) else []
    | number .. | string .. | bool .. | null _ | path .. => []

def firstAt? (target : Nat) (nodes : List (Nat × Expr)) : Option Expr :=
  (nodes.find? (·.1 == target)).map Prod.snd

def height : Expr → Nat
  | not operand _ => operand.height + 1
  | binary _ left right _ => max left.height right.height + 1
  | number .. | string .. | bool .. | null _ | path .. => 0

/-- What is left of a result under a limit, where evaluation reaches these nodes. -/
def limited (limit : Nat) (nodes : List (Nat × Expr)) (result : Except Flaw Value) :
    Except Flaw Value :=
  match firstAt? (limit + 1) nodes with
  | some node => .error ⟨.tooDeep limit, node.pos⟩
  | none => result

section

variable {vars : Variables} {limit depth target pos : Nat} {op : BinaryOp}
  {operand left right e : Expr} {nodes others : List (Nat × Expr)}
  {result : Except Flaw Value}

theorem evalAt_below (e : Expr) (h : limit < depth) :
    e.evalAt limit vars depth = .error ⟨.tooDeep limit, e.pos⟩ := by
  rw [evalAt.eq_def]
  exact if_pos h

theorem evalAt_not (h : depth ≤ limit) :
    (not operand pos).evalAt limit vars depth =
      (operand.evalAt limit vars (depth + 1)).map fun v => .bool !v.truthy := by
  rw [evalAt, if_neg (Nat.not_lt.2 h)]
  cases operand.evalAt limit vars (depth + 1) <;> rfl

theorem evalAt_binary (h : depth ≤ limit) :
    (binary op left right pos).evalAt limit vars depth =
      op.apply (left.evalAt limit vars (depth + 1)) (right.evalAt limit vars (depth + 1)) := by
  rw [evalAt, if_neg (Nat.not_lt.2 h)]
  cases left.evalAt limit vars (depth + 1) with
  | error flaw => rfl
  | ok l =>
    cases right.evalAt limit vars (depth + 1) <;> cases op <;> cases ht : l.truthy <;>
      simp [BinaryOp.apply, BinaryOp.decides, BinaryOp.combine, ht, bind, Except.bind, Except.map,
        pure, Except.pure]

theorem firstAt?_append :
    firstAt? target (nodes ++ others) = (firstAt? target nodes).or (firstAt? target others) := by
  rw [firstAt?, List.find?_append, Option.map_or]
  rfl

theorem firstAt?_eq_none :
    firstAt? target nodes = none ↔ ∀ v ∈ nodes, v.1 ≠ target := by
  simp [firstAt?]

theorem limited_of_firstAt? {node : Expr} (h : firstAt? (limit + 1) nodes = some node) :
    limited limit nodes result = .error ⟨.tooDeep limit, node.pos⟩ := by
  rw [limited, h]

theorem limited_of_none (h : firstAt? (limit + 1) nodes = none) :
    limited limit nodes result = result := by
  rw [limited, h]

theorem limited_head :
    limited limit ((limit + 1, e) :: nodes) result = .error ⟨.tooDeep limit, e.pos⟩ := by
  apply limited_of_firstAt?
  simp [firstAt?]

theorem limited_tail (h : depth ≤ limit) :
    limited limit ((depth, e) :: nodes) result = limited limit nodes result := by
  have hne : ¬ depth = limit + 1 := by omega
  simp [limited, firstAt?, hne]

theorem limited_map (f : Value → Value) :
    limited limit nodes (result.map f) = (limited limit nodes result).map f := by
  rw [limited, limited]
  cases firstAt? (limit + 1) nodes <;> rfl

theorem limited_apply (l r : Except Flaw Value) :
    limited limit (nodes ++ if op.goesOn l then others else []) (op.apply l r) =
      op.apply (limited limit nodes l) (limited limit others r) := by
  cases hfirst : firstAt? (limit + 1) nodes with
  | some node =>
    rw [limited_of_firstAt? hfirst]
    apply limited_of_firstAt?
    rw [firstAt?_append, hfirst]
    rfl
  | none =>
    rw [limited_of_none hfirst]
    cases hon : op.goesOn l with
    | false =>
      rw [BinaryOp.apply_of_not_goesOn hon, BinaryOp.apply_of_not_goesOn hon]
      apply limited_of_none
      simpa using hfirst
    | true =>
      cases hsecond : firstAt? (limit + 1) others with
      | some node =>
        rw [limited_of_firstAt? hsecond, BinaryOp.apply_error_of_goesOn hon]
        apply limited_of_firstAt?
        rw [if_pos rfl, firstAt?_append, hfirst, hsecond]
        rfl
      | none =>
        rw [limited_of_none hsecond]
        apply limited_of_none
        rw [if_pos rfl, firstAt?_append, hfirst, hsecond]
        rfl

theorem evalAt_eq_of_below :
    e.evalAt limit vars (limit + 1) =
      limited limit (e.visits vars (limit + 1)) (e.meaning vars) := by
  rw [evalAt_below e (Nat.lt_succ_self limit), visits.eq_def, limited_head]

/-- Evaluation under a limit is evaluation without one, up to the first node below the limit. -/
theorem evalAt_eq (h : depth ≤ limit + 1) :
    e.evalAt limit vars depth = limited limit (e.visits vars depth) (e.meaning vars) := by
  induction e generalizing depth with
  | not operand pos ih =>
    rcases Nat.lt_or_eq_of_le h with hlt | rfl
    · have hle := Nat.le_of_lt_succ hlt
      rw [evalAt_not hle, ih hlt, visits, meaning, limited_tail hle, limited_map]
    · exact evalAt_eq_of_below
  | binary op left right pos ihLeft ihRight =>
    rcases Nat.lt_or_eq_of_le h with hlt | rfl
    · have hle := Nat.le_of_lt_succ hlt
      rw [evalAt_binary hle, ihLeft hlt, ihRight hlt, visits, meaning, limited_tail hle,
        limited_apply]
    · exact evalAt_eq_of_below
  | number | string | bool | null | path =>
    rcases Nat.lt_or_eq_of_le h with hlt | rfl
    · have hle := Nat.le_of_lt_succ hlt
      rw [evalAt, if_neg (Nat.not_lt.2 hle), visits, meaning, limited_tail hle]
      rfl
    · exact evalAt_eq_of_below

theorem meaning_fault {flaw : Flaw} (h : e.meaning vars = .error flaw) (n : Nat) :
    flaw.fault ≠ .tooDeep n := by
  induction e generalizing flaw with
  | number | string | bool | null => cases h
  | path name pos =>
    rw [meaning] at h
    cases hp : Path.resolve name vars with
    | ok v =>
      rw [hp] at h
      cases h
    | error fault =>
      rw [hp] at h
      cases h
      simp
  | not operand pos ih =>
    rw [meaning] at h
    cases ho : operand.meaning vars with
    | ok v =>
      rw [ho] at h
      cases h
    | error inner =>
      rw [ho] at h
      cases h
      exact ih ho
  | binary op left right pos ihLeft ihRight =>
    rw [meaning] at h
    rcases BinaryOp.apply_eq_error h with hl | hr
    · exact ihLeft hl
    · exact ihRight hr

theorem mem_visits_binary {v : Nat × Expr}
    (h : v ∈ (binary op left right pos).visits vars depth) :
    v = (depth, binary op left right pos) ∨ v ∈ left.visits vars (depth + 1) ∨
      op.goesOn (left.meaning vars) ∧ v ∈ right.visits vars (depth + 1) := by
  rw [visits, List.mem_cons, List.mem_append] at h
  cases hon : op.goesOn (left.meaning vars) <;> simpa [hon] using h

theorem depth_le_of_visits {v : Nat × Expr} (h : v ∈ e.visits vars depth) :
    v.1 ≤ depth + e.height := by
  induction e generalizing depth with
  | number | string | bool | null | path =>
    rw [visits, List.mem_singleton] at h
    rw [h]
    exact Nat.le_add_right _ _
  | not operand pos ih =>
    rw [visits, List.mem_cons] at h
    rw [height]
    rcases h with rfl | h
    · exact Nat.le_add_right _ _
    · have hv := ih h
      omega
  | binary op left right pos ihLeft ihRight =>
    rw [height]
    rcases mem_visits_binary h with rfl | hl | ⟨-, hr⟩
    · exact Nat.le_add_right _ _
    · have hv := ihLeft hl
      omega
    · have hv := ihRight hr
      omega

/-- Evaluation passes every depth on its way down. -/
theorem exists_visits_of_le {v : Nat × Expr} (h : v ∈ e.visits vars depth) (hle : depth ≤ target)
    (hv : target ≤ v.1) : ∃ w ∈ e.visits vars depth, w.1 = target := by
  induction e generalizing depth with
  | number | string | bool | null | path =>
    rw [visits, List.mem_singleton] at h
    subst h
    exact ⟨_, List.mem_singleton_self _, Nat.le_antisymm hle hv⟩
  | not operand pos ih =>
    rw [visits, List.mem_cons] at h
    rcases Nat.lt_or_eq_of_le hle with hlt | rfl
    · rcases h with rfl | h
      · exact absurd hv (Nat.not_le.2 hlt)
      · obtain ⟨w, hw, hd⟩ := ih h hlt
        exact ⟨w, List.mem_cons_of_mem _ hw, hd⟩
    · exact ⟨_, List.mem_cons_self, rfl⟩
  | binary op left right pos ihLeft ihRight =>
    rcases Nat.lt_or_eq_of_le hle with hlt | rfl
    · rcases mem_visits_binary h with rfl | hl | ⟨hon, hr⟩
      · exact absurd hv (Nat.not_le.2 hlt)
      · obtain ⟨w, hw, hd⟩ := ihLeft hl hlt
        exact ⟨w, List.mem_cons_of_mem _ (List.mem_append_left _ hw), hd⟩
      · obtain ⟨w, hw, hd⟩ := ihRight hr hlt
        rw [visits, if_pos hon]
        exact ⟨w, List.mem_cons_of_mem _ (List.mem_append_right _ hw), hd⟩
    · exact ⟨_, List.mem_cons_self, rfl⟩

/-- A limit that no reached node exceeds is not noticed, and no higher one either. -/
theorem firstAt?_eq_none_mono {limit' : Nat} (hdepth : depth ≤ limit) (hle : limit ≤ limit')
    (h : firstAt? (limit + 1) (e.visits vars depth) = none) :
    firstAt? (limit' + 1) (e.visits vars depth) = none := by
  rw [firstAt?_eq_none] at h ⊢
  intro v hv heq
  have htarget : limit + 1 ≤ v.1 := by omega
  obtain ⟨w, hw, hd⟩ := exists_visits_of_le hv (Nat.le_succ_of_le hdepth) htarget
  exact h w hw hd

theorem firstAt?_of_height (h : e.height ≤ limit) :
    firstAt? (limit + 1) (e.visits vars 0) = none := by
  rw [firstAt?_eq_none]
  intro v hv heq
  have hdepth := depth_le_of_visits hv
  omega

theorem goesOn_of_limited (h : op.goesOn (limited limit nodes result) = true) :
    op.goesOn result = true := by
  cases hfirst : firstAt? (limit + 1) nodes with
  | some node =>
    rw [limited_of_firstAt? hfirst] at h
    cases h
  | none => rwa [limited_of_none hfirst] at h

end

/-- The trees differ at most in operands that evaluation leaves alone. -/
inductive Alike (vars : Variables) : Expr → Expr → Prop
  | refl (e : Expr) : Alike vars e e
  | not {e e' : Expr} {pos : Nat} (h : Alike vars e e') : Alike vars (not e pos) (not e' pos)
  | binary {op : BinaryOp} {l l' r r' : Expr} {pos : Nat} (hl : Alike vars l l')
    (hr : op.goesOn (l.meaning vars) → Alike vars r r') :
    Alike vars (binary op l r pos) (binary op l' r' pos)

namespace Alike

variable {vars : Variables} {e e' : Expr} {limit depth : Nat}

theorem pos_eq (h : Alike vars e e') : e.pos = e'.pos := by
  cases h <;> rfl

theorem evalAt_eq_of_below (h : Alike vars e e') :
    e.evalAt limit vars (limit + 1) = e'.evalAt limit vars (limit + 1) := by
  rw [evalAt_below e (Nat.lt_succ_self limit), evalAt_below e' (Nat.lt_succ_self limit), h.pos_eq]

theorem evalAt_eq (h : Alike vars e e') (hdepth : depth ≤ limit + 1) :
    e.evalAt limit vars depth = e'.evalAt limit vars depth := by
  induction h generalizing depth with
  | refl e => rfl
  | @not e e' pos h ih =>
    rcases Nat.lt_or_eq_of_le hdepth with hlt | rfl
    · have hle := Nat.le_of_lt_succ hlt
      rw [evalAt_not hle, evalAt_not hle, ih hlt]
    · exact evalAt_eq_of_below (.not h)
  | @binary op l l' r r' pos hl hr ihl ihr =>
    rcases Nat.lt_or_eq_of_le hdepth with hlt | rfl
    · have hle := Nat.le_of_lt_succ hlt
      rw [evalAt_binary hle, evalAt_binary hle, ← ihl hlt]
      cases hon : op.goesOn (l.evalAt limit vars (depth + 1)) with
      | false => rw [BinaryOp.apply_of_not_goesOn hon, BinaryOp.apply_of_not_goesOn hon]
      | true =>
        rw [Expr.evalAt_eq hlt] at hon
        rw [ihr (goesOn_of_limited hon) hlt]
    · exact evalAt_eq_of_below (.binary hl hr)

end Alike

structure Transparent (e : Expr) (vars : Variables) (source : String) : Prop where
  whole : ∀ limit, firstAt? (limit + 1) (e.visits vars 0) = none →
    e.eval limit vars source = (e.meaning vars).mapError (·.within source)
  cut : ∀ limit node, firstAt? (limit + 1) (e.visits vars 0) = some node →
    e.eval limit vars source = .error (Flaw.within ⟨.tooDeep limit, node.pos⟩ source)
  shallow : ∀ limit, e.height ≤ limit → ∀ error n, e.eval limit vars source = .error error →
    error.fault ≠ .tooDeep n
  raised : ∀ limit limit', limit ≤ limit' →
    (∀ error, e.eval limit vars source = .error error → error.fault ≠ .tooDeep limit) →
      e.eval limit' vars source = e.eval limit vars source
  /-- Operands that are left alone have no say. -/
  spared : ∀ e', Alike vars e e' → ∀ limit,
    e'.eval limit vars source = e.eval limit vars source

/--
A limit on depth does nothing to evaluation but to end it, with an error, at the first node that it
reaches below the limit.
-/
theorem eval_transparent (e : Expr) (vars : Variables) (source : String) :
    e.Transparent vars source := by
  have heval : ∀ limit, e.eval limit vars source =
      (limited limit (e.visits vars 0) (e.meaning vars)).mapError (·.within source) := by
    intro limit
    rw [eval, evalAt_eq (Nat.zero_le _)]
  have whole : ∀ limit, firstAt? (limit + 1) (e.visits vars 0) = none →
      e.eval limit vars source = (e.meaning vars).mapError (·.within source) := by
    intro limit hnone
    rw [heval, limited_of_none hnone]
  have cut : ∀ limit node, firstAt? (limit + 1) (e.visits vars 0) = some node →
      e.eval limit vars source = .error (Flaw.within ⟨.tooDeep limit, node.pos⟩ source) := by
    intro limit node hfirst
    rw [heval, limited_of_firstAt? hfirst]
    rfl
  refine ⟨whole, cut, ?_, ?_, ?_⟩
  · intro limit hheight error n herror
    rw [whole limit (firstAt?_of_height hheight)] at herror
    cases hmeaning : e.meaning vars with
    | ok v =>
      rw [hmeaning] at herror
      cases herror
    | error flaw =>
      rw [hmeaning] at herror
      cases herror
      exact meaning_fault hmeaning n
  · intro limit limit' hle hfault
    have hnone : firstAt? (limit + 1) (e.visits vars 0) = none := by
      cases hfirst : firstAt? (limit + 1) (e.visits vars 0) with
      | none => rfl
      | some node => exact absurd rfl (hfault _ (cut limit node hfirst))
    have hnone' := firstAt?_eq_none_mono (Nat.zero_le _) hle hnone
    rw [whole limit hnone, whole limit' hnone']
  · intro e' halike limit
    rw [eval, eval, halike.evalAt_eq (Nat.zero_le _)]

end Expr

end PageFlow
