import PageFlow.Proofs.Config.Layers

namespace PageFlow.Config

open Json.Field (withDefault)

def policy? (j : Json) : Option ConditionPolicy :=
  (Tree.name? j).bind fun name => ConditionPolicy.ofName? (Tree.lower name)

def sections : List (String × List String) :=
  [("limits", Limits.fieldNames), ("logging", ["level", "debug_trace"])]

def settings : List (String × String) :=
  sections.flatMap fun e => e.2.map (e.1, ·)

theorem mem_settings {group key : String} {keys : List String} (h : (group, keys) ∈ sections)
    (hkey : key ∈ keys) : (group, key) ∈ settings :=
  List.mem_flatMap_of_mem h (List.mem_map_of_mem hkey)

/--
Neither the file nor the variables take the place of a section, and what the highest layer that sets
a setting gives to it is the whole value, and no table.
-/
structure KeyByKey (s : Surroundings) (file : Table Json) (o : Overrides) : Prop where
  file_keeps : ∀ e ∈ sections, (Layer.ofFile file).Keeps e.1
  variables_keep : ∀ e ∈ sections, (Layer.ofVariables s).Keeps e.1
  whole : ∀ group key, (group, key) ∈ settings →
    ∃ value, Highest group key (some value) (layers s file o) ∧ ¬ Tree.IsTable value

def Shows {α : Type} (layers : List Layer) (group key : String) (convert : Json → Option α)
    (a : α) : Prop :=
  ∃ value, Highest group key (some value) layers ∧ convert value = some a

structure Reflects (c : Config) (layers : List Layer) : Prop where
  maxDepth : Shows layers "limits" "max_depth" Tree.nat? c.limits.maxDepth
  maxSteps : Shows layers "limits" "max_steps" Tree.nat? c.limits.maxSteps
  maxExpressionDepth :
    Shows layers "limits" "max_expression_depth" Tree.nat? c.limits.maxExpressionDepth
  actionTimeout : Shows layers "limits" "action_timeout_ms" Tree.nat? c.limits.actionTimeout
  stepTimeout : Shows layers "limits" "step_timeout_ms" Tree.nat? c.limits.stepTimeout
  maxRetryDelay : Shows layers "limits" "max_retry_delay_ms" Tree.nat? c.limits.maxRetryDelay
  conditionErrors : Shows layers "limits" "condition_errors" policy? c.limits.conditionErrors
  logLevel : Shows layers "logging" "level" Tree.string? c.logLevel
  debugTrace : Shows layers "logging" "debug_trace" Tree.bool? c.debugTrace

/-- A section has for some keys what the highest layers that set them give. -/
def Holds (fields : Table Json) (group : String) (keys : List String) (layers : List Layer) :
    Prop :=
  ∀ key ∈ keys, ∃ value, Highest group key (some value) layers ∧ fields.get? key = some value

theorem Holds.shows {α : Type} {fields : Table Json} {group key : String} {keys : List String}
    {layers : List Layer} {convert : Json → Option α} {default a : α}
    (h : Holds fields group keys layers) (hkey : key ∈ keys)
    (ha : withDefault default convert fields key = some a) : Shows layers group key convert a := by
  obtain ⟨value, hhighest, hget⟩ := h key hkey
  rw [withDefault, hget] at ha
  exact ⟨value, hhighest, ha⟩

theorem Holds.congr {fields fields' : Table Json} {group : String} {keys : List String}
    {layers layers' : List Layer} (h : Holds fields group keys layers)
    (h' : Holds fields' group keys layers')
    (hvalues : ∀ key ∈ keys, ∀ value,
      Highest group key value layers → Highest group key value layers') :
    ∀ key ∈ keys, fields.get? key = fields'.get? key := by
  intro key hkey
  obtain ⟨value, hhighest, hget⟩ := h key hkey
  obtain ⟨value', hhighest', hget'⟩ := h' key hkey
  have hsame := (hvalues key hkey _ hhighest).unique hhighest'
  rw [hget, hget', hsame]

theorem KeyByKey.holds {s : Surroundings} {file : Table Json} {o : Overrides} {group : String}
    {keys : List String} (h : KeyByKey s file o) (hgroup : (group, keys) ∈ sections) :
    ∃ fields, (treeOf s file o).get? group = some (.object fields) ∧
      Holds fields group keys (layers s file o) := by
  have hmem : group ∈ ["limits", "logging"] := List.mem_map_of_mem (f := Prod.fst) hgroup
  obtain ⟨fields, hfields, hgiven⟩ :=
    get?_treeOf o hmem (h.file_keeps _ hgroup) (h.variables_keep _ hgroup)
  refine ⟨fields, hfields, fun key hkey => ?_⟩
  obtain ⟨value, hhighest, hvalue⟩ := h.whole group key (mem_settings hgroup hkey)
  exact ⟨value, hhighest, hgiven key value hhighest hvalue⟩

section

variable {s : Surroundings} {path : Option String}

end

/-- The selected file can be read, and the layers set their settings one by one. -/
structure Given (s : Surroundings) (path : Option String) (o : Overrides) (file : Table Json) :
    Prop where
  selected : fileLayer (withVariablesFile s) path = .ok file
  keyed : KeyByKey (withVariablesFile s) file o

end PageFlow.Config
