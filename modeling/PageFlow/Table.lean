namespace PageFlow

/-- Entries in increasing order of their keys, by code point. -/
abbrev Table (α : Type) := List (String × α)

namespace Table

variable {α β : Type}

def Sorted (t : Table α) : Prop :=
  t.Pairwise fun a b => a.1 < b.1

def get? : Table α → String → Option α
  | [], _ => none
  | (k, v) :: rest, key => if k = key then some v else get? rest key

def contains (t : Table α) (key : String) : Bool :=
  (t.get? key).isSome

def keys (t : Table α) : List String :=
  t.map Prod.fst

/-- Adds an entry at the place of its key, or replaces the entry of that key. -/
def insert : Table α → String → α → Table α
  | [], key, value => [(key, value)]
  | (k, v) :: rest, key, value =>
    if key < k then (key, value) :: (k, v) :: rest
    else if key = k then (key, value) :: rest
    else (k, v) :: insert rest key value

/-- Adds the entries of a list in turn, so the last of equal keys stays. -/
def insertAll (t : Table α) (entries : List (String × α)) : Table α :=
  entries.foldl (fun t e => t.insert e.1 e.2) t

def ofList (entries : List (String × α)) : Table α :=
  insertAll [] entries

def mapValues (f : α → β) (t : Table α) : Table β :=
  t.map fun e => (e.1, f e.2)

/-- Applies a fallible function to the values in key order; the first failure wins. -/
def mapValuesM {ε : Type} (f : α → Except ε β) : Table α → Except ε (Table β)
  | [] => .ok []
  | (k, v) :: rest =>
    match f v with
    | .error e => .error e
    | .ok w => (mapValuesM f rest).map ((k, w) :: ·)

theorem insertAll_append (t : Table α) (entries others : List (String × α)) :
    t.insertAll (entries ++ others) = (t.insertAll entries).insertAll others :=
  List.foldl_append

theorem get?_insert (t : Table α) (key other : String) (value : α) :
    (t.insert key value).get? other = if key = other then some value else t.get? other := by
  induction t with
  | nil => simp [insert, get?]
  | cons e rest ih =>
    obtain ⟨k, v⟩ := e
    unfold insert
    split
    · simp [get?]
    split
    · next hk => subst hk; simp only [get?]; split <;> simp_all
    · simp only [get?, ih]
      split
      · next hk => subst hk; simp_all
      · rfl

theorem mem_of_get? {t : Table α} {key : String} {value : α} (h : t.get? key = some value) :
    value ∈ t.map Prod.snd := by
  induction t with
  | nil => cases h
  | cons e rest ih =>
    obtain ⟨k, v⟩ := e
    unfold get? at h
    split at h
    · cases h
      exact List.mem_cons_self
    · exact List.mem_cons_of_mem _ (ih h)

theorem mem_keys_insert {t : Table α} {key k : String} {value : α}
    (h : k ∈ (t.insert key value).keys) : k = key ∨ k ∈ t.keys := by
  induction t with
  | nil => simpa [insert, keys] using h
  | cons e rest ih =>
    unfold insert at h
    split at h
    · simpa [keys] using h
    split at h
    · next hk => simp only [keys, List.map_cons, List.mem_cons] at h ⊢; grind
    · simp only [keys, List.map_cons, List.mem_cons] at h ih ⊢
      grind

theorem Sorted.insert {t : Table α} (h : t.Sorted) (key : String) (value : α) :
    (t.insert key value).Sorted := by
  induction t with
  | nil => simp [Table.insert, Sorted]
  | cons e rest ih =>
    obtain ⟨hhead, htail⟩ := List.pairwise_cons.1 h
    unfold Table.insert
    split
    · next hk =>
      refine List.pairwise_cons.2 ⟨?_, h⟩
      intro b hb
      rcases List.mem_cons.1 hb with rfl | hb
      · exact hk
      · exact String.lt_trans hk (hhead b hb)
    split
    · next hk =>
      subst hk
      exact List.pairwise_cons.2 ⟨hhead, htail⟩
    · next hk hne =>
      refine List.pairwise_cons.2 ⟨?_, ih htail⟩
      intro b hb
      have hmem : b.1 ∈ keys (Table.insert rest key value) := List.mem_map_of_mem hb
      rcases mem_keys_insert hmem with hb | hb
      · rw [hb]
        exact Std.lt_of_le_of_ne (String.not_lt.1 hk) fun e => hne e.symm
      · obtain ⟨c, hc, he⟩ := List.mem_map.1 hb
        exact he ▸ hhead c hc

theorem Sorted.insertAll {t : Table α} (h : t.Sorted) (entries : List (String × α)) :
    (t.insertAll entries).Sorted := by
  induction entries generalizing t with
  | nil => exact h
  | cons e rest ih => exact ih (h.insert e.1 e.2)

end Table

end PageFlow
