import PageFlow.Proofs.Config.Sections

namespace PageFlow

namespace Config

/-- A path into the tree of settings, and what is put at its end. -/
abbrev Assignment := List Tree.Step × Json

/--
The key of a section that an assignment sets, with its value. There is no value if only a part of
one is set.
-/
def Assignment.key? (group : String) : Assignment → Option (String × Option Json)
  | ([.entry other, .entry key], value) => if other = group then some (key, some value) else none
  | (.entry other :: .entry key :: _ :: _, _) => if other = group then some (key, none) else none
  | _ => none

theorem Assignment.key?_of_ne {group other : String} (h : other ≠ group) (rest : List Tree.Step)
    (value : Json) : key? group (.entry other :: rest, value) = none := by
  match rest with
  | [.entry _] | .entry _ :: _ :: _ => exact if_neg h
  | [] | .item _ :: _ => rfl

/-- What an assignment gives to a key of a section: a value, or a part of one. -/
theorem Assignment.key?_entry (group key : String) (more : List Tree.Step) (value : Json) :
    key? group (.entry group :: .entry key :: more, value) =
      some (key, if more = [] then some value else none) := by
  match more with
  | [] => simp [key?]
  | _ :: _ => simp [key?]

/-- The assignments of one source, in the order in which they are made. -/
abbrev Layer := List Assignment

namespace Layer

def ofSection (group : String) (fields : List (String × Json)) : Layer :=
  fields.map fun e => ([.entry group, .entry e.1], e.2)

/-- A table under the name of a section assigns its entries. -/
def ofEntry (name : String) (value : Json) : Layer :=
  match Tree.path name, value with
  | [.entry group], .object fields => ofSection group (fields.map fun e => (Tree.lower e.1, e.2))
  | path, value => [(path, value)]

def ofFile (file : Table Json) : Layer :=
  file.flatMap fun e => ofEntry e.1 e.2

def ofVariables (s : Surroundings) : Layer :=
  s.environment.filterMap fun e => (variablePath? e.1).map (·, variableValue e.2)

def ofDefaults : Layer :=
  ofSection "limits" ({} : Limits).toFields ++ ofSection "logging" ({} : Config).loggingFields

def keysOf (layer : Layer) (group : String) : List (String × Option Json) :=
  layer.filterMap (Assignment.key? group)

/-- What a layer puts into a setting last: a value, or a part of one. -/
def Gives (layer : Layer) (group key : String) (value : Option Json) : Prop :=
  Table.Latest (layer.keysOf group) key value

/-- The layer does not take the place of a section. -/
def Keeps (layer : Layer) (group : String) : Prop :=
  ∀ a ∈ layer, ∀ rest, a.1 = .entry group :: rest → ∃ key more, rest = .entry key :: more

def Rooted (layer : Layer) : Prop :=
  ∀ a ∈ layer, ∃ key rest, a.1 = .entry key :: rest

def apply (layer : Layer) (tree : Table Json) : Table Json :=
  layer.foldl (fun tree a => Tree.assign a.1 a.2 tree) tree

section

variable {layer : Layer} {group : String} {tree : Table Json}

theorem get?_apply_congr {tree' : Table Json} (rooted : layer.Rooted)
    (h : tree.get? group = tree'.get? group) :
    (layer.apply tree).get? group = (layer.apply tree').get? group := by
  induction layer generalizing tree tree' with
  | nil => exact h
  | cons a rest ih =>
    obtain ⟨hrooted, hrest⟩ := List.forall_mem_cons.1 rooted
    obtain ⟨steps, value⟩ := a
    obtain ⟨key, more, rfl⟩ := hrooted
    exact ih hrest (Tree.get?_assign_congr h key more value)

/-- What the section has for its keys, after some assignments to what it had. -/
structure Leaves (layer : Layer) (group : String) (old new : Table Json) : Prop where
  given : ∀ key value, layer.Gives group key (some value) → ¬ Tree.IsTable value →
    new.get? key = some value
  kept : ∀ key, (∀ value, ¬ layer.Gives group key value) → new.get? key = old.get? key

theorem Leaves.cons {rest : Layer} {key : String} {more : List Tree.Step} {value : Json}
    {old new : Table Json}
    (h : rest.Leaves group (old.insert key (Tree.put value more (old.get? key))) new) :
    Leaves ((.entry group :: .entry key :: more, value) :: rest) group old new := by
  have hkeys : keysOf ((.entry group :: .entry key :: more, value) :: rest) group =
      (key, if more = [] then some value else none) :: keysOf rest group :=
    List.filterMap_cons_some (Assignment.key?_entry group key more value)
  constructor
  · intro other given hgives hvalue
    rw [Gives, hkeys, Table.latest_cons] at hgives
    rcases hgives with hrest | ⟨hfirst, hsilent⟩
    · exact h.given other given hrest hvalue
    · obtain ⟨rfl, hgiven⟩ := Prod.mk.inj hfirst
      obtain ⟨rfl, rfl⟩ : more = [] ∧ value = given := by
        split at hgiven
        · next hmore => exact ⟨hmore, Option.some.inj hgiven⟩
        · cases hgiven
      rw [h.kept key (Table.not_latest.2 hsilent), Table.get?_insert, if_pos rfl, Tree.put,
        Tree.merge_of_not_isTable hvalue]
  · intro other hsilent
    simp only [Gives, hkeys] at hsilent
    obtain ⟨hne, hrest⟩ := List.forall_mem_cons.1 (Table.not_latest.1 hsilent)
    rw [h.kept other (Table.not_latest.2 hrest), Table.get?_insert, if_neg hne]

theorem Leaves.cons_of_none {rest : Layer} {a : Assignment} {old new : Table Json}
    (ha : Assignment.key? group a = none) (h : rest.Leaves group old new) :
    Leaves (a :: rest) group old new := by
  have hkeys : keysOf (a :: rest) group = keysOf rest group := List.filterMap_cons_none ha
  constructor
  · intro key value hgives
    rw [Gives, hkeys] at hgives
    exact h.given key value hgives
  · intro key hsilent
    simp only [Gives, hkeys] at hsilent
    exact h.kept key hsilent

theorem apply_leaves (rooted : layer.Rooted) (keeps : layer.Keeps group) {old : Table Json}
    (h : tree.get? group = some (.object old)) : ∃ new : Table Json,
      (layer.apply tree).get? group = some (.object new) ∧ layer.Leaves group old new := by
  induction layer generalizing tree old with
  | nil => exact ⟨old, h, fun key value hgives => absurd hgives Table.latest_nil, fun _ _ => rfl⟩
  | cons a rest ih =>
    obtain ⟨hrooted, hrest⟩ := List.forall_mem_cons.1 rooted
    obtain ⟨hkeeps, hrest'⟩ := List.forall_mem_cons.1 keeps
    obtain ⟨steps, value⟩ := a
    obtain ⟨other, more, rfl⟩ := hrooted
    by_cases hgroup : other = group
    · subst hgroup
      obtain ⟨key, more, rfl⟩ := hkeeps more rfl
      obtain ⟨new, hnew, hleaves⟩ := ih hrest hrest' (Tree.get?_assign_entry h key more value)
      exact ⟨new, hnew, hleaves.cons⟩
    · have hother := (Tree.get?_assign_of_ne hgroup more value).trans h
      obtain ⟨new, hnew, hleaves⟩ := ih hrest hrest' hother
      exact ⟨new, hnew, hleaves.cons_of_none (Assignment.key?_of_ne hgroup more value)⟩

end

theorem keysOf_append (layer other : Layer) (group : String) :
    keysOf (layer ++ other) group = keysOf layer group ++ keysOf other group :=
  List.filterMap_append

theorem keysOf_ofSection (group : String) (fields : List (String × Json)) :
    keysOf (ofSection group fields) group = fields.map fun e => (e.1, some e.2) := by
  rw [keysOf, ofSection, List.filterMap_map]
  have hkey : (Assignment.key? group ∘ fun e : String × Json =>
      (([.entry group, .entry e.1], e.2) : Assignment)) = fun e => some (e.1, some e.2) :=
    funext fun e => Assignment.key?_entry group e.1 [] e.2
  rw [hkey, List.filterMap_eq_map']

theorem keysOf_ofSection_of_ne {group other : String} (h : other ≠ group)
    (fields : List (String × Json)) : keysOf (ofSection other fields) group = [] := by
  rw [keysOf, List.filterMap_eq_nil_iff]
  intro a ha
  obtain ⟨e, -, rfl⟩ := List.mem_map.1 ha
  exact Assignment.key?_of_ne h _ _

theorem get?_apply_ofSection {group : String} {tree old : Table Json}
    (h : tree.get? group = some (.object old)) (fields : List (String × Json)) :
    (apply (ofSection group (fields.map fun e => (Tree.lower e.1, e.2))) tree).get? group =
      some (.object (Tree.mergeFields fields old)) := by
  induction fields generalizing tree old with
  | nil => exact h
  | cons e rest ih => exact ih (Tree.get?_assign_entry h (Tree.lower e.1) [] e.2)

theorem get?_apply_ofSection_of_ne {group other : String} (h : other ≠ group)
    (fields : List (String × Json)) (tree : Table Json) :
    (apply (ofSection other fields) tree).get? group = tree.get? group := by
  induction fields generalizing tree with
  | nil => rfl
  | cons e rest ih => exact (ih _).trans (Tree.get?_assign_of_ne h _ _)

theorem rooted_ofSection (group : String) (fields : List (String × Json)) :
    Rooted (ofSection group fields) := by
  intro a ha
  obtain ⟨e, -, rfl⟩ := List.mem_map.1 ha
  exact ⟨group, _, rfl⟩

theorem ofEntry_cases (name : String) (value : Json) :
    (∃ other fields, Tree.path name = [.entry other] ∧ value = .object fields ∧
      ofEntry name value = ofSection other (fields.map fun e => (Tree.lower e.1, e.2))) ∨
      ofEntry name value = [(Tree.path name, value)] := by
  unfold ofEntry
  split
  · next hpath => exact .inl ⟨_, _, hpath, rfl, rfl⟩
  · exact .inr rfl

theorem rooted_ofEntry (name : String) (value : Json) : (ofEntry name value).Rooted := by
  rcases ofEntry_cases name value with ⟨other, fields, -, -, hentry⟩ | hentry
  · rw [hentry]
    exact rooted_ofSection _ _
  · rw [hentry]
    exact List.forall_mem_singleton.2 (Tree.path_eq name)

theorem rooted_ofFile (file : Table Json) : (ofFile file).Rooted := by
  intro a ha
  obtain ⟨e, -, ha⟩ := List.mem_flatMap.1 ha
  exact rooted_ofEntry e.1 e.2 a ha

section

variable {group : String} {tree old : Table Json}

/-- Where a section is a table, an entry of a file is as good as its assignments. -/
theorem get?_assign_ofEntry (name : String) (value : Json)
    (h : tree.get? group = some (.object old)) :
    (Tree.assign (Tree.path name) value tree).get? group =
      ((ofEntry name value).apply tree).get? group := by
  rcases ofEntry_cases name value with ⟨other, fields, hpath, rfl, hentry⟩ | hentry
  · rw [hentry, hpath]
    by_cases hgroup : other = group
    · subst hgroup
      rw [Tree.get?_assign_table h, get?_apply_ofSection h]
    · rw [Tree.get?_assign_of_ne hgroup, get?_apply_ofSection_of_ne hgroup]
  · rw [hentry]
    rfl

theorem get?_addAll {file : Table Json} (keeps : (ofFile file).Keeps group)
    (h : tree.get? group = some (.object old)) :
    (Tree.addAll file tree).get? group = ((ofFile file).apply tree).get? group := by
  induction file generalizing tree old with
  | nil => rfl
  | cons e rest ih =>
    obtain ⟨hfirst, hrest⟩ := List.forall_mem_append.1 keeps
    have hentry := get?_assign_ofEntry e.1 e.2 h
    obtain ⟨new, hnew, -⟩ := apply_leaves (rooted_ofEntry e.1 e.2) hfirst h
    have happly : (ofFile (e :: rest)).apply tree =
        (ofFile rest).apply ((ofEntry e.1 e.2).apply tree) := List.foldl_append
    rw [happly]
    exact (ih hrest (hentry.trans hnew)).trans (get?_apply_congr (rooted_ofFile rest) hentry)

end

theorem addVariables_eq (s : Surroundings) (tree : Table Json) :
    addVariables s tree = (ofVariables s).apply tree := by
  rw [addVariables, apply, ofVariables, List.foldl_filterMap]
  congr 1
  funext tree e
  obtain ⟨name, value⟩ := e
  dsimp only
  cases variablePath? name with
  | none => rfl
  | some path => rfl

theorem rooted_ofVariables (s : Surroundings) : (ofVariables s).Rooted := by
  intro a ha
  obtain ⟨e, -, ha⟩ := List.mem_filterMap.1 ha
  obtain ⟨path, hpath, rfl⟩ := Option.map_eq_some_iff.1 ha
  rw [variablePath?] at hpath
  split at hpath
  · cases hpath
    exact Tree.path_eq _
  · cases hpath

theorem path_of_overrides {o : Overrides} {a : Assignment} (h : a ∈ o.entries) :
    ∃ group key, a.1 = [.entry group, .entry key] ∧ ¬ Tree.IsTable a.2 := by
  simp only [Overrides.entries, List.mem_append, Option.mem_toList, Option.map_eq_some_iff] at h
  rcases h with (((⟨_, -, rfl⟩ | ⟨_, -, rfl⟩) | ⟨_, -, rfl⟩) | ⟨_, -, rfl⟩) | ⟨_, -, rfl⟩
  all_goals exact ⟨_, _, rfl, id⟩

theorem rooted_overrides (o : Overrides) : Rooted o.entries := by
  intro a ha
  obtain ⟨group, key, hpath, -⟩ := path_of_overrides ha
  exact ⟨group, _, hpath⟩

theorem keeps_overrides (o : Overrides) (group : String) : Keeps o.entries group := by
  intro a ha rest hrest
  obtain ⟨other, key, hpath, -⟩ := path_of_overrides ha
  cases hpath.symm.trans hrest
  exact ⟨key, [], rfl⟩

end Layer

/-- What the highest layer that sets a setting gives to it. -/
inductive Highest (group key : String) (value : Option Json) : List Layer → Prop
  | here {layer : Layer} {below : List Layer} (gives : layer.Gives group key value) :
    Highest group key value (layer :: below)
  | under {layer : Layer} {below : List Layer} (silent : ∀ other, ¬ layer.Gives group key other)
    (rest : Highest group key value below) : Highest group key value (layer :: below)

theorem Highest.unique {group key : String} {value other : Option Json} {layers : List Layer}
    (h : Highest group key value layers) (h' : Highest group key other layers) : value = other := by
  induction h with
  | here gives =>
    cases h' with
    | here gives' => exact gives.unique gives'
    | under silent => exact absurd gives (silent _)
  | under silent rest ih =>
    cases h' with
    | here gives' => exact absurd gives' (silent _)
    | under _ rest' => exact ih rest'

/-- The layers of a configuration, from the highest to the lowest. -/
def layers (s : Surroundings) (file : Table Json) (o : Overrides) : List Layer :=
  [o.entries, .ofVariables s, .ofFile file, .ofDefaults]

def treeOf (s : Surroundings) (file : Table Json) (o : Overrides) : Table Json :=
  o.add (addVariables s (Tree.addAll file defaults))

theorem get?_defaults {group : String} (h : group ∈ ["limits", "logging"]) :
    ∃ old : Table Json, defaults.get? group = some (.object old) ∧
      ∀ key value, Layer.ofDefaults.Gives group key (some value) → old.get? key = some value := by
  have hget : ∀ fields : List (String × Json), ∀ key value,
      Table.Latest (fields.map fun e => (e.1, some e.2)) key (some value) →
        (Table.ofList fields).get? key = some value := by
    intro fields key value hlatest
    obtain ⟨original, horiginal, hsame⟩ := hlatest.of_map
    cases hsame
    exact Table.get?_ofList.2 horiginal
  have hne : "limits" ≠ "logging" := by decide
  simp only [List.mem_cons, List.not_mem_nil, or_false] at h
  simp only [Layer.Gives, Layer.ofDefaults, Layer.keysOf_append]
  rcases h with rfl | rfl
  · rw [Layer.keysOf_ofSection, Layer.keysOf_ofSection_of_ne hne.symm, List.append_nil]
    exact ⟨_, rfl, hget _⟩
  · rw [Layer.keysOf_ofSection, Layer.keysOf_ofSection_of_ne hne]
    exact ⟨_, rfl, hget _⟩

theorem get?_treeOf {s : Surroundings} {file : Table Json} {group : String} (o : Overrides)
    (hgroup : group ∈ ["limits", "logging"]) (hfile : (Layer.ofFile file).Keeps group)
    (hvariables : (Layer.ofVariables s).Keeps group) : ∃ new : Table Json,
      (treeOf s file o).get? group = some (.object new) ∧
        ∀ key value, Highest group key (some value) (layers s file o) → ¬ Tree.IsTable value →
          new.get? key = some value := by
  obtain ⟨base, hbase, hdefaults⟩ := get?_defaults hgroup
  obtain ⟨first, hfirst, hleaves⟩ := Layer.apply_leaves (Layer.rooted_ofFile file) hfile hbase
  rw [← Layer.get?_addAll hfile hbase] at hfirst
  obtain ⟨second, hsecond, hleaves'⟩ :=
    Layer.apply_leaves (Layer.rooted_ofVariables s) hvariables hfirst
  obtain ⟨third, hthird, hleaves''⟩ :=
    Layer.apply_leaves (Layer.rooted_overrides o) (Layer.keeps_overrides o group) hsecond
  rw [← Layer.addVariables_eq] at hthird
  refine ⟨third, hthird, fun key value hhighest hvalue => ?_⟩
  -- each layer is looked at only if those above it are silent
  cases hhighest with
  | here gives => exact hleaves''.given key value gives hvalue
  | under silent hhighest =>
  rw [hleaves''.kept key silent]
  cases hhighest with
  | here gives => exact hleaves'.given key value gives hvalue
  | under silent hhighest =>
  rw [hleaves'.kept key silent]
  cases hhighest with
  | here gives => exact hleaves.given key value gives hvalue
  | under silent hhighest =>
  rw [hleaves.kept key silent]
  cases hhighest with
  | here gives => exact hdefaults key value gives
  | under silent hhighest => cases hhighest

end Config

end PageFlow
