import PageFlow.Config.Load
import PageFlow.Proofs.Table

namespace PageFlow.Tree

/-- A table is merged into what was there; anything else takes its place. -/
def IsTable : Json → Prop
  | .object _ => True
  | _ => False

theorem merge_of_not_isTable {value : Json} (h : ¬ IsTable value) (old : Option Json) :
    merge value old = value := by
  cases value with
  | object fields => exact absurd trivial h
  | _ => rw [merge] <;> exact nofun

theorem Step.next?_point {s rest : List Char} {step : Step}
    (h : next? ('.' :: s) = some (step, rest)) : ∃ key, step = .entry key := by
  rw [next?] at h
  split at h
  · cases h
  · cases h
    exact ⟨_, rfl⟩

theorem path_eq (name : String) : ∃ key rest, path name = .entry key :: rest := by
  rw [path, Step.read?]
  split
  · exact ⟨_, _, rfl⟩
  · next step rest hlen hshorter =>
    cases hnext : Step.next? ('.' :: name.toList) with
    | none =>
      rw [hnext] at hshorter
      cases hshorter
    | some read =>
      obtain ⟨first, more⟩ := read
      obtain ⟨key, rfl⟩ := Step.next?_point hnext
      rw [hnext, Json.shorter] at hshorter
      split at hshorter
      · simp only [Option.some.injEq, Prod.mk.injEq, Subtype.mk.injEq] at hshorter
        obtain ⟨rfl, rfl⟩ := hshorter
        change ∃ key' rest', ((Step.read? more).map (Step.entry key :: ·)).getD _ = _
        cases Step.read? more with
        | none => exact ⟨_, _, rfl⟩
        | some steps => exact ⟨key, steps, rfl⟩
      · cases hshorter

section

variable {group : String} {tree : Table Json}

theorem assign_eq (key : String) (rest : List Step) (value : Json) (tree : Table Json) :
    assign (.entry key :: rest) value tree = tree.insert key (put value rest (tree.get? key)) :=
  rfl

theorem get?_assign_of_ne {other : String} (h : other ≠ group) (rest : List Step) (value : Json) :
    (assign (.entry other :: rest) value tree).get? group = tree.get? group := by
  rw [assign_eq, Table.get?_insert, if_neg h]

/-- An assignment does not look at what is outside of its section. -/
theorem get?_assign_congr {tree' : Table Json} (h : tree.get? group = tree'.get? group)
    (key : String) (rest : List Step) (value : Json) :
    (assign (.entry key :: rest) value tree).get? group =
      (assign (.entry key :: rest) value tree').get? group := by
  rw [assign_eq, assign_eq, Table.get?_insert, Table.get?_insert]
  split
  · next hkey => rw [hkey, h]
  · exact h

variable {old : Table Json} (h : tree.get? group = some (.object old))
include h

theorem get?_assign_entry (key : String) (rest : List Step) (value : Json) :
    (assign (.entry group :: .entry key :: rest) value tree).get? group =
      some (.object (old.insert key (put value rest (old.get? key)))) := by
  rw [assign_eq, Table.get?_insert, if_pos rfl, h]
  rfl

theorem get?_assign_table (fields : List (String × Json)) :
    (assign [.entry group] (.object fields) tree).get? group =
      some (.object (mergeFields fields old)) := by
  rw [assign_eq, Table.get?_insert, if_pos rfl, h, put, merge]

end

end PageFlow.Tree
