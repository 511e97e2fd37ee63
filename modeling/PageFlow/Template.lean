import PageFlow.Expr.Fault
import PageFlow.Text

namespace PageFlow

/-- A reference and the literal text before it. -/
structure Placeholder where
  literal : List Char
  path : List Char
deriving DecidableEq

namespace Text

/-- The bytes that a text takes. -/
def byteLength : List Char → Nat
  | [] => 0
  | c :: rest => c.utf8Size + byteLength rest

/-- The characters of a text that stand in its first bytes. -/
def charOffset : List Char → Nat → Nat
  | [], _ => 0
  | c :: rest, bytes => if bytes = 0 then 0 else charOffset rest (bytes - c.utf8Size) + 1

end Text

namespace Template

/-- The text before the first opening mark, and the text after that mark. -/
def splitOpen? : List Char → Option (List Char × List Char)
  | [] => none
  | '$' :: '\x7b' :: rest => some ([], rest)
  | c :: rest => (splitOpen? rest).map fun (before, after) => (c :: before, after)

/-- The text before the first closing brace, and the text after it. -/
def splitClose? : List Char → Option (List Char × List Char)
  | [] => none
  | c :: rest =>
    if c = '\x7d' then some ([], rest)
    else (splitClose? rest).map fun (before, after) => (c :: before, after)

theorem splitOpen?_length {s before after : List Char} (h : splitOpen? s = some (before, after)) :
    before.length + after.length + 2 = s.length := by
  fun_induction splitOpen? s generalizing before after with
  | case1 => cases h
  | case2 rest => cases h; simp
  | case3 c rest _ ih =>
    obtain ⟨⟨b, a⟩, hr, he⟩ := Option.map_eq_some_iff.1 h
    cases he
    have := ih hr
    simp only [List.length_cons]
    omega

theorem splitClose?_length {s before after : List Char}
    (h : splitClose? s = some (before, after)) :
    before.length + after.length + 1 = s.length := by
  fun_induction splitClose? s generalizing before after with
  | case1 => cases h
  | case2 rest => cases h; simp
  | case3 c rest _ ih =>
    obtain ⟨⟨b, a⟩, hr, he⟩ := Option.map_eq_some_iff.1 h
    cases he
    have := ih hr
    simp only [List.length_cons]
    omega

/-- The first placeholder and the text after it. -/
def first? (s : List Char) : Option (Placeholder × List Char) :=
  match splitOpen? s with
  | none => none
  | some (literal, afterOpen) =>
    (splitClose? afterOpen).map fun (path, rest) => (⟨literal, path⟩, rest)

theorem first?_length {s rest : List Char} {p : Placeholder} (h : first? s = some (p, rest)) :
    p.literal.length + p.path.length + rest.length + 3 = s.length := by
  unfold first? at h
  split at h
  · cases h
  · next literal afterOpen ho =>
    obtain ⟨⟨path, r⟩, hc, he⟩ := Option.map_eq_some_iff.1 h
    cases he
    have := splitOpen?_length ho
    have := splitClose?_length hc
    simp only
    omega

/--
Moves the rest of a source to the output, with the values of references in their places. The rest
starts behind so many bytes of the source.
-/
def splice (vars : Variables) (source out rest : List Char) (consumed : Nat) :
    Except Flaw (List Char) :=
  match _h : first? rest with
  | none => .ok (out ++ rest)
  | some (p, after) => do
    let start := Text.byteLength p.literal
    let value ← (Path.resolve (String.ofList (Text.trim p.path)) vars).mapError fun fault =>
      ⟨.path fault, Text.charOffset source (consumed + start)⟩
    splice vars source (out ++ p.literal ++ value.display.toList) after
      (consumed + (start + 2 + Text.byteLength p.path + 1))
termination_by rest.length
decreasing_by
  have := first?_length _h
  omega

theorem splice_of_none {source out rest : List Char} (h : first? rest = none) (vars : Variables)
    (consumed : Nat) : splice vars source out rest consumed = .ok (out ++ rest) := by
  rw [splice]
  split
  · rfl
  · next hsome => cases h.symm.trans hsome

end Template

/-- A text with the text of each referenced value in place of the reference. -/
def interpolate (vars : Variables) (text : String) : Except ExprError String :=
  let source := text.toList
  if (Template.splitOpen? source).isNone then .ok text
  else
    match Template.splice vars source [] source 0 with
    | .error flaw => .error (flaw.within text)
    | .ok chars => .ok (String.ofList chars)

/-- A text without references stands for itself. -/
theorem interpolate_of_none {text : String} (h : Template.first? text.toList = none)
    (vars : Variables) : interpolate vars text = .ok text := by
  rw [interpolate, Template.splice_of_none h]
  split
  · rfl
  · exact congrArg _ String.ofList_toList

mutual

/-- A JSON value with every text inside it interpolated; names of fields are left alone. -/
def interpolateJson (vars : Variables) : Json → Except ExprError Json
  | .string s => (interpolate vars s).map .string
  | .array items => (interpolateItems vars items).map .array
  | .object fields => (interpolateFields vars fields).map .object
  | scalar => .ok scalar

def interpolateItems (vars : Variables) : List Json → Except ExprError (List Json)
  | [] => .ok []
  | item :: rest => do
    let item ← interpolateJson vars item
    let rest ← interpolateItems vars rest
    return item :: rest

def interpolateFields (vars : Variables) :
    List (String × Json) → Except ExprError (List (String × Json))
  | [] => .ok []
  | (key, value) :: rest => do
    let value ← interpolateJson vars value
    let rest ← interpolateFields vars rest
    return (key, value) :: rest

end

/-- What stands between the braces of a text that is one reference with white space around it. -/
def soleReference? (text : List Char) : Option (List Char) :=
  match Text.trim text with
  | '$' :: '\x7b' :: rest =>
    if rest.getLast? = some '\x7d' then
      let inner := rest.dropLast
      if (Template.splitOpen? inner).isSome || inner.contains '\x7d' then none else some inner
    else none
  | _ => none

/-- The path of a text that is exactly one reference. -/
def pureReference? (text : String) : Option String :=
  match (soleReference? text.toList).map Text.trim with
  | none | some [] => none
  | some path => some (String.ofList path)

/-- The value of a text that is exactly one reference, with its kind. -/
def resolvePure (vars : Variables) (text : String) : Except ExprError (Option Value) :=
  match pureReference? text with
  | none => .ok none
  | some path =>
    match Path.resolve path vars with
    | .ok value => .ok (some value)
    | .error fault =>
      let offset := (text.toList.takeWhile Text.isBlank).length
      .error (Flaw.within ⟨.path fault, offset⟩ text)

end PageFlow
