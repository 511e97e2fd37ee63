import PageFlow.Action.Definition

namespace PageFlow

structure Registry where
  actions : Table Action := []
  selectors : Table (Table Json) := []

namespace Registry

/-- Adds an action, in place of any with the same full name. -/
def register (r : Registry) (a : Action) : Registry :=
  { r with actions := r.actions.insert a.fullName a }

def ofActions (actions : List Action) : Registry :=
  actions.foldl register {}

/-- Adds named selectors to a name space, in place of those with the same names. -/
def addSelectors (r : Registry) (space : String) (selectors : Table Json) : Registry :=
  let known := (r.selectors.get? space).getD []
  { r with selectors := r.selectors.insert space (known.insertAll selectors) }

/-- The action with a full name. -/
def lookup? (r : Registry) (fullName : String) : Option Action :=
  r.actions.get? fullName

/-- The selectors that an action sees. -/
def selectorsOf (r : Registry) (a : Action) : Table Json :=
  (r.selectors.get? a.space).getD []

/-- The full names, in order. -/
def names (r : Registry) : List String :=
  r.actions.keys

/-- The number of actions. -/
def size (r : Registry) : Nat :=
  r.actions.length

/--
The action that a `run` step means: a bare name is looked for in the caller's own name space first.
-/
def target? (r : Registry) (space target : String) : Option Action :=
  if target.toList.contains ':' || space = "" then r.lookup? target
  else (r.lookup? (qualify space target)).or (r.lookup? target)

theorem mem_of_target? {r : Registry} {space target : String} {a : Action}
    (h : r.target? space target = some a) : a ∈ r.actions.map Prod.snd := by
  unfold target? at h
  split at h
  · exact Table.mem_of_get? h
  rcases Option.or_eq_some_iff.1 h with hq | ⟨-, hb⟩
  · exact Table.mem_of_get? hq
  · exact Table.mem_of_get? hb

end Registry

end PageFlow
