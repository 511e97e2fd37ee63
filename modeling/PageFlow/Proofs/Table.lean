import PageFlow.Table

namespace PageFlow.Table

variable {α β : Type}

theorem get?_mapValues (f : α → β) (t : Table α) (key : String) :
    (t.mapValues f).get? key = (t.get? key).map f := by
  induction t with
  | nil => rfl
  | cons e rest ih =>
    obtain ⟨k, v⟩ := e
    rw [get?]
    split
    · next hk => exact if_pos hk
    · next hk => exact (if_neg hk).trans ih

theorem mem_keys_iff {t : Table α} {key : String} :
    key ∈ t.keys ↔ ∃ value, t.get? key = some value := by
  induction t with
  | nil => simp [keys, get?]
  | cons e rest ih =>
    obtain ⟨k, v⟩ := e
    rw [get?]
    split
    · next hk => simp [keys, hk]
    · next hk =>
      rw [← ih]
      simp [keys, Ne.symm hk]

section

variable {t rest : Table α} {key : String} {e : String × α}

theorem get?_head (value : α) : get? ((key, value) :: rest) key = some value :=
  if_pos rfl

theorem get?_of_below (h : ∀ e ∈ t, key < e.1) : t.get? key = none := by
  cases hget : t.get? key with
  | none => rfl
  | some value =>
    obtain ⟨e, hmem, rfl⟩ := List.mem_map.1 (mem_keys_iff.2 ⟨value, hget⟩)
    exact absurd (h e hmem) (String.lt_irrefl e.1)

theorem get?_of_lt_head (h : Sorted (e :: rest)) (hlt : key < e.1) :
    get? (e :: rest) key = none := by
  apply get?_of_below
  intro f hf
  rcases List.mem_cons.1 hf with rfl | hf
  · exact hlt
  · exact String.lt_trans hlt ((List.pairwise_cons.1 h).1 f hf)

end

/-- The last of some entries that has a key has a value. -/
def Latest (entries : List (String × α)) (key : String) (value : α) : Prop :=
  ∃ before after, entries = before ++ (key, value) :: after ∧ ∀ e ∈ after, e.1 ≠ key

section

variable {entries : List (String × α)} {e : String × α} {key : String} {value : α}

theorem latest_nil : ¬ Latest [] key value := by
  intro ⟨before, after, heq, _⟩
  simp at heq

theorem latest_cons : Latest (e :: entries) key value ↔
    Latest entries key value ∨ e = (key, value) ∧ ∀ f ∈ entries, f.1 ≠ key := by
  constructor
  · intro ⟨before, after, heq, hafter⟩
    cases before with
    | nil =>
      obtain ⟨rfl, rfl⟩ := List.cons.inj heq
      exact .inr ⟨rfl, hafter⟩
    | cons first before =>
      obtain ⟨rfl, rfl⟩ := List.cons.inj heq
      exact .inl ⟨before, after, rfl, hafter⟩
  · intro h
    rcases h with ⟨before, after, rfl, hafter⟩ | ⟨rfl, hafter⟩
    · exact ⟨e :: before, after, rfl, hafter⟩
    · exact ⟨[], entries, rfl, hafter⟩

theorem Latest.mem (h : Latest entries key value) : (key, value) ∈ entries := by
  obtain ⟨before, after, rfl, -⟩ := h
  simp

theorem exists_latest : (∃ value, Latest entries key value) ↔ ∃ value, (key, value) ∈ entries := by
  induction entries with
  | nil => simp [latest_nil]
  | cons e rest ih =>
    constructor
    · intro ⟨value, before, after, heq, _⟩
      exact ⟨value, by simp [heq]⟩
    · intro ⟨value, hmem⟩
      by_cases hrest : ∃ value, (key, value) ∈ rest
      · obtain ⟨last, hlast⟩ := ih.2 hrest
        exact ⟨last, latest_cons.2 (.inl hlast)⟩
      · have hother : ∀ f ∈ rest, f.1 ≠ key := by
          intro f hf heq
          exact hrest ⟨f.2, heq ▸ hf⟩
        cases hmem with
        | head => exact ⟨value, latest_cons.2 (.inr ⟨rfl, hother⟩)⟩
        | tail _ hmem => exact absurd ⟨value, hmem⟩ hrest

theorem not_latest : (∀ value, ¬ Latest entries key value) ↔ ∀ e ∈ entries, e.1 ≠ key := by
  rw [← not_exists, exists_latest]
  constructor
  · rintro h ⟨_, value⟩ hmem rfl
    exact h ⟨value, hmem⟩
  · rintro h ⟨value, hmem⟩
    exact h _ hmem rfl

theorem Latest.map (h : Latest entries key value) (f : α → β) :
    Latest (entries.map fun e => (e.1, f e.2)) key (f value) := by
  obtain ⟨before, after, rfl, hafter⟩ := h
  refine ⟨before.map fun e => (e.1, f e.2), after.map fun e => (e.1, f e.2), by simp, ?_⟩
  intro mapped hmapped
  obtain ⟨e, he, rfl⟩ := List.mem_map.1 hmapped
  exact hafter e he

theorem get?_insertAll (t : Table α) : (t.insertAll entries).get? key = some value ↔
    Latest entries key value ∨ t.get? key = some value ∧ ∀ e ∈ entries, e.1 ≠ key := by
  induction entries generalizing t with
  | nil => simp [insertAll, latest_nil]
  | cons e rest ih =>
    rw [insertAll, List.foldl_cons]
    change (insertAll (t.insert e.1 e.2) rest).get? key = some value ↔ _
    obtain ⟨k, v⟩ := e
    rw [ih, get?_insert, latest_cons, List.forall_mem_cons]
    split
    · next hk =>
      obtain rfl : k = key := hk
      simp
    · next hk =>
      have hne : k ≠ key := hk
      simp [hne]

theorem get?_ofList : (ofList entries).get? key = some value ↔ Latest entries key value := by
  rw [ofList, get?_insertAll]
  simp [get?]

end

section

variable (t : Table α) (key : String) (value : α)

theorem insert_self : (t.insert key value).insert key value = t.insert key value := by
  induction t with
  | nil => simp [insert]
  | cons e rest ih =>
    obtain ⟨k, v⟩ := e
    rw [insert]
    split
    · simp [insert]
    split
    · simp [insert]
    · next hlt hne => rw [insert, if_neg hlt, if_neg hne, ih]

theorem insert_comm {other : String} (hne : key ≠ other) (value' : α) :
    (t.insert other value').insert key value = (t.insert key value).insert other value' := by
  -- Each entry goes before the first greater key, which the other entry can be but never hides.
  induction t with
  | nil => grind [insert]
  | cons e rest ih => grind [insert]

end

theorem mem_of_mem_insert {t : Table α} {key : String} {value : α} {e : String × α}
    (h : e ∈ t.insert key value) : e = (key, value) ∨ e ∈ t := by
  induction t with
  | nil => exact .inl (List.mem_singleton.1 h)
  | cons first rest ih =>
    rw [insert] at h
    split at h
    · exact List.mem_cons.1 h
    split at h
    · exact (List.mem_cons.1 h).imp_right (List.mem_cons_of_mem _)
    · rcases List.mem_cons.1 h with rfl | hrest
      · exact .inr List.mem_cons_self
      · exact (ih hrest).imp_right (List.mem_cons_of_mem _)

theorem mem_of_mem_insertAll {t : Table α} {entries : List (String × α)} {e : String × α}
    (h : e ∈ t.insertAll entries) : e ∈ t ∨ e ∈ entries := by
  induction entries generalizing t with
  | nil => exact .inl h
  | cons first rest ih =>
    rcases ih h with ht | hrest
    · rcases mem_of_mem_insert ht with rfl | ht
      · exact .inr List.mem_cons_self
      · exact .inl ht
    · exact .inr (List.mem_cons_of_mem _ hrest)

theorem mem_of_mem_ofList {entries : List (String × α)} {e : String × α} (h : e ∈ ofList entries) :
    e ∈ entries :=
  (mem_of_mem_insertAll h).resolve_left List.not_mem_nil

theorem insert_of_above {t : Table α} {key : String} (h : ∀ e ∈ t, e.1 < key) (value : α) :
    t.insert key value = t ++ [(key, value)] := by
  induction t with
  | nil => rfl
  | cons e rest ih =>
    obtain ⟨hhead, hrest⟩ := List.forall_mem_cons.1 h
    rw [insert, if_neg (String.lt_asymm hhead), if_neg (String.ne_of_lt hhead).symm, ih hrest]
    rfl

theorem insertAll_of_sorted {t entries : Table α} (h : Sorted (t ++ entries)) :
    t.insertAll entries = t ++ entries := by
  induction entries generalizing t with
  | nil => exact (List.append_nil t).symm
  | cons e rest ih =>
    have habove : ∀ f ∈ t, f.1 < e.1 := fun f hf =>
      (List.pairwise_append.1 h).2.2 f hf e List.mem_cons_self
    change insertAll (t.insert e.1 e.2) rest = _
    rw [insert_of_above habove, ih (by simpa using h)]
    simp

theorem ofList_of_sorted {t : Table α} (h : t.Sorted) : ofList t = t :=
  insertAll_of_sorted h

theorem Latest.unique {entries : List (String × α)} {key : String} {value value' : α}
    (h : Latest entries key value) (h' : Latest entries key value') : value = value' :=
  Option.some.inj ((get?_ofList.2 h).symm.trans (get?_ofList.2 h'))

theorem Latest.of_map {entries : List (String × α)} {key : String} {f : α → β} {value : β}
    (h : Latest (entries.map fun e => (e.1, f e.2)) key value) :
    ∃ original, Latest entries key original ∧ value = f original := by
  obtain ⟨mapped, hmapped⟩ := exists_latest.1 ⟨value, h⟩
  obtain ⟨e, he, heq⟩ := List.mem_map.1 hmapped
  obtain ⟨rfl, -⟩ := Prod.mk.inj heq
  obtain ⟨original, horiginal⟩ := exists_latest.2 ⟨e.2, he⟩
  exact ⟨original, horiginal, h.unique (horiginal.map f)⟩

theorem sorted_ofList (entries : List (String × α)) : (ofList entries).Sorted :=
  Sorted.insertAll .nil entries

end PageFlow.Table
