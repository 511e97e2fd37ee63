import PageFlow.Proofs.Expr.Depth
import PageFlow.Proofs.Number.Order
import PageFlow.Proofs.Table

namespace PageFlow

namespace Value

inductive HoldsNaN : Value → Prop
  | number : HoldsNaN (.number .nan)
  | item {items : List Value} {value : Value} (mem : value ∈ items) (h : HoldsNaN value) :
    HoldsNaN (.list items)
  | field {fields : List (String × Value)} {e : String × Value} (mem : e ∈ fields)
    (h : HoldsNaN e.2) : HoldsNaN (.record fields)

theorem holdsNaN_list {items : List Value} :
    HoldsNaN (.list items) ↔ ∃ value ∈ items, value.HoldsNaN := by
  constructor
  · intro h
    cases h with
    | item mem h => exact ⟨_, mem, h⟩
  · rintro ⟨value, mem, h⟩
    exact .item mem h

theorem holdsNaN_record {fields : List (String × Value)} :
    HoldsNaN (.record fields) ↔ ∃ e ∈ fields, e.2.HoldsNaN := by
  constructor
  · intro h
    cases h with
    | field mem h => exact ⟨_, mem, h⟩
  · rintro ⟨e, mem, h⟩
    exact .field mem h

mutual

theorem same_comm : ∀ a b : Value, a.same b = b.same a
  | null, b | undefined, b => by cases b <;> rfl
  | bool _, b => by
    cases b with
    | bool _ => exact BEq.comm
    | null | undefined | number | text | list | record => rfl
  | number x, b => by
    cases b with
    | number y => exact x.same_comm y
    | null | undefined | bool | text | list | record => rfl
  | text _, b => by
    cases b with
    | text _ => exact BEq.comm
    | null | undefined | bool | number | list | record => rfl
  | list as, b => by
    cases b with
    | list bs => exact sameItems_comm as bs
    | null | undefined | bool | number | text | record => rfl
  | record as, b => by
    cases b with
    | record bs => exact sameFields_comm as bs
    | null | undefined | bool | number | text | list => rfl

theorem sameItems_comm : ∀ as bs : List Value, sameItems as bs = sameItems bs as
  | [], [] | [], _ :: _ | _ :: _, [] => rfl
  | a :: as, b :: bs => by rw [sameItems, sameItems, same_comm a b, sameItems_comm as bs]

theorem sameFields_comm : ∀ as bs : List (String × Value), sameFields as bs = sameFields bs as
  | [], [] | [], _ :: _ | _ :: _, [] => rfl
  | (k, a) :: as, (l, b) :: bs => by
    rw [sameFields, sameFields, BEq.comm, same_comm a b, sameFields_comm as bs]

end

mutual

theorem same_self : ∀ a : Value, a.same a ↔ ¬ a.HoldsNaN
  | null | undefined => by simpa [same] using nofun
  | bool _ | text _ => by simpa [same] using nofun
  | number x => by
    rw [same, Double.same_self]
    cases x with
    | nan => simpa [Double.isNaN] using HoldsNaN.number
    | signed negative m => simpa [Double.isNaN] using nofun
  | list items => by
    rw [same, sameItems_self items, holdsNaN_list]
    simp
  | record fields => by
    rw [same, sameFields_self fields, holdsNaN_record]
    simp

theorem sameItems_self : ∀ items : List Value,
    sameItems items items ↔ ∀ value ∈ items, ¬ value.HoldsNaN
  | [] => by simp [sameItems]
  | item :: rest => by
    rw [sameItems, Bool.and_eq_true, same_self item, sameItems_self rest, List.forall_mem_cons]

theorem sameFields_self : ∀ fields : List (String × Value),
    sameFields fields fields ↔ ∀ e ∈ fields, ¬ e.2.HoldsNaN
  | [] => by simp [sameFields]
  | (key, value) :: rest => by
    rw [sameFields, Bool.and_eq_true, Bool.and_eq_true, same_self value, sameFields_self rest,
      List.forall_mem_cons]
    simp

end

theorem sameFields_iff {as bs : Table Value} (ha : as.Sorted) (hb : bs.Sorted) :
    sameFields as bs ↔
      ∀ key, Option.Rel (fun a b : Value => a.same b) (as.get? key) (bs.get? key) := by
  induction as generalizing bs with
  | nil =>
    cases bs with
    | nil => exact iff_of_true rfl fun _ => .none
    | cons e bs =>
      refine iff_of_false nofun fun h => ?_
      have hhead := h e.1
      rw [Table.get?_head] at hhead
      cases hhead
  | cons e as ih =>
    obtain ⟨k, a⟩ := e
    cases bs with
    | nil =>
      refine iff_of_false nofun fun h => ?_
      have hhead := h k
      rw [Table.get?_head] at hhead
      cases hhead
    | cons e bs =>
      obtain ⟨l, b⟩ := e
      obtain ⟨haHead, haTail⟩ := List.pairwise_cons.1 ha
      obtain ⟨hbHead, hbTail⟩ := List.pairwise_cons.1 hb
      rw [sameFields, Bool.and_eq_true, Bool.and_eq_true, beq_iff_eq, ih haTail hbTail]
      constructor
      · rintro ⟨⟨rfl, hab⟩, hrest⟩ key
        rw [Table.get?, Table.get?]
        split
        · exact .some hab
        · exact hrest key
      · intro h
        have hk := h k
        have hl := h l
        rw [Table.get?_head] at hk hl
        -- The lesser of two first names would be a name of one record only.
        obtain rfl : k = l := by
          apply Std.le_antisymm
          · apply String.not_lt.1
            intro hlt
            rw [Table.get?_of_lt_head ha hlt] at hl
            cases hl
          · apply String.not_lt.1
            intro hlt
            rw [Table.get?_of_lt_head hb hlt] at hk
            cases hk
        rw [Table.get?_head] at hk
        cases hk with
        | some hab =>
          refine ⟨⟨rfl, hab⟩, fun key => ?_⟩
          have hkey := h key
          rw [Table.get?, Table.get?] at hkey
          split at hkey
          · next heq =>
            subst heq
            rw [Table.get?_of_below haHead, Table.get?_of_below hbHead]
            exact .none
          · exact hkey

end Value

/-- Evaluation compares any two operands with these values, and comes to this. -/
def BinaryOp.Compares (op : BinaryOp) (a b : Value) (result : Bool) : Prop :=
  ∀ (limit : Nat) (vars : Variables) (depth pos : Nat) (left right : Expr), depth ≤ limit →
    left.evalAt limit vars (depth + 1) = .ok a → right.evalAt limit vars (depth + 1) = .ok b →
      (Expr.binary op left right pos).evalAt limit vars depth = .ok (.bool result)

namespace BinaryOp

theorem compares {op : BinaryOp} {a b : Value} {result : Bool} (hdecides : op.decides a = false)
    (hcombine : op.combine a b = .bool result) : op.Compares a b result := by
  intro limit vars depth pos left right hdepth hleft hright
  rw [Expr.evalAt_binary hdepth, hleft, hright, apply, hdecides, ← hcombine]
  rfl

def IsOrdering (op : BinaryOp) : Prop :=
  op = lt ∨ op = gt ∨ op = ltEq ∨ op = gtEq

end BinaryOp

namespace Value

structure Coherent (a b : Value) : Prop where
  symm : a.looseEq b = b.looseEq a
  self : a.looseEq a ↔ ¬ a.HoldsNaN
  /-- Records are equal name by name, whatever order their fields are thought to be in. -/
  records : ∀ as bs : Table Value, a = .record as → b = .record bs → as.Sorted → bs.Sorted →
    (a.looseEq b ↔ ∀ key, Option.Rel (fun x y : Value => x.same y) (as.get? key) (bs.get? key))
  eq : BinaryOp.eq.Compares a b (a.looseEq b)
  notEq : BinaryOp.notEq.Compares a b (!a.looseEq b)
  ordering : ∀ op : BinaryOp, op.IsOrdering → op.Compares a b (op.orders a b)
  trichotomy : a.toNumber.isNaN = false → b.toNumber.isNaN = false →
    ExactlyOne (BinaryOp.lt.orders a b) (BinaryOp.gt.orders a b) (a.toNumber.same b.toNumber)
  atMost : a.toNumber.isNaN = false → b.toNumber.isNaN = false →
    (BinaryOp.ltEq.orders a b ↔ ¬ BinaryOp.gt.orders a b)
  atLeast : a.toNumber.isNaN = false → b.toNumber.isNaN = false →
    (BinaryOp.gtEq.orders a b ↔ ¬ BinaryOp.lt.orders a b)
  antisymm : BinaryOp.ltEq.orders a b → BinaryOp.ltEq.orders b a → a.looseEq b
  unordered : a.toNumber.isNaN ∨ b.toNumber.isNaN →
    ∀ op : BinaryOp, op.IsOrdering → op.orders a b = false

theorem looseEq_comm (a b : Value) : a.looseEq b = b.looseEq a := by
  rw [looseEq, looseEq, Bool.and_comm, same_comm a b, Double.same_comm]

theorem looseEq_of_same_number {a b : Value} (h : a.toNumber.same b.toNumber) : a.looseEq b := by
  rw [looseEq, h, Bool.or_true]

/-- A value with a NaN in it is a NaN itself, or has no number. -/
theorem HoldsNaN.isNaN_toNumber {a : Value} (h : a.HoldsNaN) : a.toNumber.isNaN := by
  cases h <;> rfl

theorem HoldsNaN.not_nullish {a : Value} (h : a.HoldsNaN) : a.isNullish = false := by
  cases h <;> rfl

theorem looseEq_self (a : Value) : a.looseEq a ↔ ¬ a.HoldsNaN := by
  constructor
  · intro h hnan
    have hsame : a.same a = false := by simpa using mt (same_self a).1 fun hno => hno hnan
    rw [looseEq, hnan.not_nullish, hsame, Double.same_self, hnan.isNaN_toNumber] at h
    cases h
  · intro h
    rw [looseEq, (same_self a).2 h, Bool.or_true, Bool.true_or]

theorem looseEq_record (as bs : Table Value) :
    (record as).looseEq (record bs) = sameFields as bs :=
  Bool.or_false _

theorem not_orders_of_isNaN {a b : Value} (h : a.toNumber.isNaN ∨ b.toNumber.isNaN)
    {op : BinaryOp} (hop : op.IsOrdering) : op.orders a b = false := by
  rcases hop with rfl | rfl | rfl | rfl
  · exact (Double.unordered h).1
  · exact (Double.unordered h.symm).1
  · exact (Double.unordered h).2
  · exact (Double.unordered h.symm).2

/--
Equality is symmetric, and only a NaN somewhere in a value keeps it from being equal to itself. The
orderings are a total order of the values that are numbers, in which equals are equal, and nothing
is ordered that is none.
-/
theorem comparisons_coherent (a b : Value) : Coherent a b where
  symm := looseEq_comm a b
  self := looseEq_self a
  records := by
    rintro as bs rfl rfl ha hb
    rw [looseEq_record, sameFields_iff ha hb]
  eq := BinaryOp.compares rfl rfl
  notEq := BinaryOp.compares rfl rfl
  ordering := by
    rintro op (rfl | rfl | rfl | rfl)
    · exact BinaryOp.compares rfl rfl
    · exact BinaryOp.compares rfl rfl
    · exact BinaryOp.compares rfl rfl
    · exact BinaryOp.compares rfl rfl
  trichotomy := Double.trichotomy
  atMost := Double.atMost_iff_not_less
  atLeast ha hb := Double.atMost_iff_not_less hb ha
  antisymm h h' := looseEq_of_same_number (Double.same_of_atMost h h')
  unordered h _ hop := not_orders_of_isNaN h hop

end Value

end PageFlow
