import PageFlow.Error

namespace PageFlow

/-- An element that a page has found, by the name it was looked for. -/
structure Element where
  name : String
deriving DecidableEq

/-- What can be done with an element. Times are in milliseconds. -/
inductive ElementOp where
  | click
  | fill (value : String)
  | type (text : String)
  | press (key : String)
  | waitFor (state : String) (timeout : Nat)
  | count
  | visible
deriving DecidableEq

inductive Call where
  | navigate (url : String) (timeout : Nat)
  | locate (selector : String)
  | resolve (definition : Json) (timeout : Nat)
  | evaluate (script : String)
  | keyboard (key : String)
  | act (element : Element) (op : ElementOp)

def ElementOp.Answer : ElementOp → Type
  | count => Nat
  | visible => Bool
  | click | fill _ | type _ | press _ | waitFor .. => Unit

def Call.Answer : Call → Type
  | navigate .. | keyboard _ => Unit
  | locate _ | resolve .. => Element
  | evaluate _ => Json
  | act _ op => op.Answer

/--
A page with states in `σ`. A request that is sent takes some time, and is settled only if that time
passes; both depend on the state and on the time since the start of the run.
-/
structure Page (σ : Type) where
  send : σ → (now : Nat) → Call → Nat × σ
  settle : σ → (now : Nat) → (c : Call) → Except PageError c.Answer × σ

end PageFlow
