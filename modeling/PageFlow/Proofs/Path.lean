import PageFlow.Scope

namespace PageFlow

namespace Path

/--
One segment further: a field of a record, an item of a list, or the length of a list or text.
Everything else leads nowhere.
-/
def step (value : Value) (segment : String) : Value :=
  match value with
  | .record fields => (Table.get? fields segment).getD .undefined
  | .list items =>
    if segment = "length" then .number (.ofNat items.length)
    else match index? segment with
      | some i => items[i]?.getD .undefined
      | none => .undefined
  | .text s => if segment = "length" then .number (.ofNat s.length) else .undefined
  | _ => .undefined

def EndsAt (value : Value) (segment : String) : Prop :=
  match value with
  | .undefined | .null | .bool _ | .number _ => True
  | .text _ => segment ≠ "length"
  | .list _ | .record _ => False

def Property.value : Property → Value
  | part value | computed value => value
  | missing => .undefined

theorem value_property (value : Value) (segment : String) :
    (property value segment).value = step value segment := by
  cases value with
  | null | undefined | bool | number => rfl
  | text s =>
    simp only [property, step]
    split <;> rfl
  | list items =>
    simp only [property, step]
    split
    · rfl
    · cases index? segment with
      | none => rfl
      | some i =>
        simp only [Option.bind_some]
        cases items[i]? <;> rfl
  | record fields =>
    simp only [property, step]
    cases Table.get? fields segment <;> rfl

theorem step_of_endsAt {value : Value} {segment : String} (h : EndsAt value segment) :
    step value segment = .undefined := by
  cases value with
  | null | undefined | bool | number => rfl
  | text s => exact if_neg h
  | list | record => exact h.elim

theorem endsAt_of_computed {value computed : Value} {segment : String}
    (h : property value segment = .computed computed) (next : String) : EndsAt computed next := by
  cases value with
  | null | undefined | bool | number => cases h
  | text s =>
    simp only [property] at h
    split at h
    · cases h
      trivial
    · cases h
  | list items =>
    simp only [property] at h
    split at h
    · cases h
      trivial
    · cases hitem : (index? segment).bind fun i => items[i]? <;> rw [hitem] at h <;> cases h
  | record fields =>
    simp only [property] at h
    cases hfield : Table.get? fields segment <;> rw [hfield] at h <;> cases h

theorem foldl_undefined (segments : List String) :
    segments.foldl step .undefined = .undefined := by
  induction segments with
  | nil => rfl
  | cons segment rest ih => exact ih

theorem follow_eq_foldl (value : Value) (segments : List String) :
    follow value segments = segments.foldl step value := by
  induction segments generalizing value with
  | nil => rfl
  | cons segment rest ih =>
    rw [follow, List.foldl_cons, ← value_property]
    cases hproperty : property value segment with
    | part next => exact ih next
    | missing => exact (foldl_undefined rest).symm
    | computed leaf =>
      cases rest with
      | nil => rfl
      | cons next rest =>
        -- a computed value is a number, so the fold goes on with nothing
        have hend : step leaf next = .undefined :=
          step_of_endsAt (endsAt_of_computed hproperty next)
        rw [Property.value, List.foldl_cons, hend, foldl_undefined]
        rfl

theorem lookUp_eq_foldl (entries : Table Value) (segments : List String) :
    lookUp entries segments = segments.foldl step (.record entries) := by
  cases segments with
  | nil => rfl
  | cons key rest =>
    rw [lookUp, List.foldl_cons, step]
    cases entries.get? key with
    | none => exact (foldl_undefined rest).symm
    | some value => exact follow_eq_foldl value rest

theorem split_cons (c : Char) (rest : List Char) :
    split (c :: rest) = if c = '.' then ([], (split rest).1 :: (split rest).2)
      else (c :: (split rest).1, (split rest).2) := rfl

theorem split_append_dot (before after : List Char) :
    split (before ++ '.' :: after) =
      ((split before).1, (split before).2 ++ (split after).1 :: (split after).2) := by
  induction before with
  | nil => rfl
  | cons c before ih =>
    rw [List.cons_append, split_cons, ih, split_cons]
    split <;> rfl

theorem split_dotless {s : List Char} (h : '.' ∉ s) : split s = (s, []) := by
  induction s with
  | nil => rfl
  | cons c s ih =>
    rw [List.mem_cons, not_or] at h
    rw [split_cons, ih h.2]
    exact if_neg (Ne.symm h.1)

theorem dotless_of_split (s : List Char) :
    ∀ piece ∈ (split s).1 :: (split s).2, '.' ∉ piece := by
  induction s with
  | nil => simp [split]
  | cons c s ih =>
    rw [List.forall_mem_cons] at ih
    rw [split_cons]
    split
    · simpa using ih
    · next hc => simpa [Ne.symm hc] using ih

theorem intercalate_split (s : List Char) :
    ['.'].intercalate ((split s).1 :: (split s).2) = s := by
  induction s with
  | nil => rfl
  | cons c s ih =>
    rw [split_cons]
    split
    · next hc =>
      rw [List.intercalate_cons_cons, ih, hc]
      rfl
    · rw [List.intercalate_cons_cons_left, ih]

theorem segments_append (path : String) {segment : String} (h : '.' ∉ segment.toList) :
    segments (path ++ "." ++ segment) = ((segments path).1, (segments path).2 ++ [segment]) := by
  have hsplit := split_append_dot path.toList segment.toList
  rw [split_dotless h] at hsplit
  simp [segments, hsplit]

theorem not_forbidden_of_scope {first : String} {scope : Scope}
    (h : Scope.ofName? first = some scope) : first ∉ forbidden := by
  unfold Scope.ofName? at h
  split at h
  · decide
  · decide
  · decide
  · decide
  · cases h

theorem find?_forbidden_eq_none {segments : List String} :
    segments.find? forbidden.contains = none ↔ ∀ segment ∈ segments, segment ∉ forbidden := by
  simp

theorem resolve_eq (path : String) (vars : Variables) :
    resolve path vars =
      match ((segments path).1 :: (segments path).2).find? forbidden.contains with
      | some segment => .error (.forbidden segment)
      | none =>
        match Scope.ofName? (segments path).1 with
        | none => .error (.unknownScope (segments path).1)
        | some scope => .ok (lookUp (vars.scope scope) (segments path).2) := rfl

theorem resolve_of_allowed {path : String} {scope : Scope}
    (hscope : Scope.ofName? (segments path).1 = some scope)
    (hallowed : ∀ segment ∈ (segments path).2, segment ∉ forbidden) (vars : Variables) :
    resolve path vars = .ok ((segments path).2.foldl step (.record (vars.scope scope))) := by
  have hnone : ((segments path).1 :: (segments path).2).find? forbidden.contains = none :=
    find?_forbidden_eq_none.2 (List.forall_mem_cons.2 ⟨not_forbidden_of_scope hscope, hallowed⟩)
  rw [resolve_eq, hnone, hscope, ← lookUp_eq_foldl]

theorem resolve_eq_ok {path : String} {vars : Variables} {value : Value}
    (h : resolve path vars = .ok value) : ∃ scope, Scope.ofName? (segments path).1 = some scope ∧
      (∀ segment ∈ (segments path).2, segment ∉ forbidden) ∧
        value = (segments path).2.foldl step (.record (vars.scope scope)) := by
  rw [resolve_eq] at h
  split at h
  · cases h
  next hnone =>
  split at h
  · cases h
  next scope hscope =>
  have hallowed := (List.forall_mem_cons.1 (find?_forbidden_eq_none.1 hnone)).2
  cases h
  exact ⟨scope, hscope, hallowed, lookUp_eq_foldl _ _⟩

theorem resolve_append {path : String} {vars : Variables} {value : Value}
    (h : resolve path vars = .ok value) {segment : String} (hdot : '.' ∉ segment.toList)
    (hallowed : segment ∉ forbidden) :
    resolve (path ++ "." ++ segment) vars = .ok (step value segment) := by
  obtain ⟨scope, hscope, hothers, rfl⟩ := resolve_eq_ok h
  have hsegments := segments_append path hdot
  have hfirst : Scope.ofName? (segments (path ++ "." ++ segment)).1 = some scope := by
    rw [hsegments, hscope]
  have hall : ∀ s ∈ (segments (path ++ "." ++ segment)).2, s ∉ forbidden := by
    rw [hsegments]
    exact List.forall_mem_append.2 ⟨hothers, List.forall_mem_singleton.2 hallowed⟩
  rw [resolve_of_allowed hfirst hall, hsegments, List.foldl_append]
  rfl

theorem resolve_forbidden {path : String} {before after : List String} {segment : String}
    (hsegments : (segments path).1 :: (segments path).2 = before ++ segment :: after)
    (hforbidden : segment ∈ forbidden) (hbefore : ∀ s ∈ before, s ∉ forbidden)
    (vars : Variables) : resolve path vars = .error (.forbidden segment) := by
  have hfind : ((segments path).1 :: (segments path).2).find? forbidden.contains =
      some segment := by
    rw [List.find?_eq_some_iff_append]
    exact ⟨by simpa using hforbidden, before, after, hsegments, by simpa using hbefore⟩
  rw [resolve_eq, hfind]

/-- Below a scope, only the entry that the first segment names is looked at. -/
theorem lookUp_congr {entries entries' : Table Value} {key : String}
    (h : entries.get? key = entries'.get? key) (rest : List String) :
    lookUp entries (key :: rest) = lookUp entries' (key :: rest) := by
  rw [lookUp, lookUp, h]

theorem resolve_congr {path : String} {scope : Scope} {vars vars' : Variables} {key : String}
    {rest : List String} (hscope : Scope.ofName? (segments path).1 = some scope)
    (hothers : (segments path).2 = key :: rest)
    (h : (vars.scope scope).get? key = (vars'.scope scope).get? key) :
    resolve path vars = resolve path vars' := by
  have hentry := lookUp_congr h rest
  rw [resolve_eq, resolve_eq]
  simp only [hscope, hothers, hentry]

/-- How a path is resolved that has these segments between its dots. -/
structure Folds (path first : String) (others : List String) : Prop where
  joined : path = ".".intercalate (first :: others)
  dotless : ∀ segment ∈ first :: others, '.' ∉ segment.toList
  folds : ∀ scope vars, Scope.ofName? first = some scope →
    (∀ segment ∈ others, segment ∉ forbidden) →
      resolve path vars = .ok (others.foldl step (.record (vars.scope scope)))
  goesOn : ∀ vars value segment, resolve path vars = .ok value → '.' ∉ segment.toList →
    segment ∉ forbidden → resolve (path ++ "." ++ segment) vars = .ok (step value segment)
  absorbs : ∀ vars value segment, resolve path vars = .ok value → EndsAt value segment →
    '.' ∉ segment.toList → segment ∉ forbidden →
      resolve (path ++ "." ++ segment) vars = .ok .undefined
  /-- Only one entry of the scope is looked at. -/
  reads : ∀ scope key rest vars vars', Scope.ofName? first = some scope → others = key :: rest →
    (vars.scope scope).get? key = (vars'.scope scope).get? key →
      resolve path vars = resolve path vars'
  refuses : ∀ before segment after, first :: others = before ++ segment :: after →
    segment ∈ forbidden → (∀ s ∈ before, s ∉ forbidden) →
      ∀ vars, resolve path vars = .error (.forbidden segment)

/--
A path that starts with a scope and has no forbidden segment is resolved by a step for each segment
behind the scope. The first forbidden segment ends every other path that has one.
-/
theorem resolve_folds (path : String) : Folds path (segments path).1 (segments path).2 := by
  constructor
  case joined =>
    apply String.toList_injective
    rw [String.toList_intercalate]
    have hjoin := intercalate_split path.toList
    simpa [segments] using hjoin.symm
  case dotless =>
    have hdotless := dotless_of_split path.toList
    simpa [segments] using hdotless
  case folds =>
    intro scope vars hscope hothers
    exact resolve_of_allowed hscope hothers vars
  case goesOn =>
    intro vars value segment h hdot hallowed
    exact resolve_append h hdot hallowed
  case absorbs =>
    intro vars value segment h hend hdot hallowed
    rw [resolve_append h hdot hallowed, step_of_endsAt hend]
  case reads =>
    intro scope key rest vars vars' hscope hothers h
    exact resolve_congr hscope hothers h
  case refuses =>
    intro before segment after hsegments hforbidden hbefore vars
    exact resolve_forbidden hsegments hforbidden hbefore vars

end Path

end PageFlow
