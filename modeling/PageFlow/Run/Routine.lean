import PageFlow.Page.Call
import PageFlow.Run.Frame
import PageFlow.Run.Trace

namespace PageFlow

/--
A part of a run that has a list of records of its own: an attempt at a step, or its fallback list.
-/
inductive Turn where
  | attempt (index count : Nat)
  | fallback (index : Nat)
deriving DecidableEq

/-- Where in a run something happens: the turns that it is inside of, from the outermost. -/
abbrev Place := List Turn

/-- What a routine reports about the action, or the step of it, that it is at. -/
inductive News where
  | entered (a : Action) (frame : Frame)
  | begun (index : Nat) (step : Step) (progress : Progress)
  | dispatched (index : Nat) (kind : StepKind)
  | attempted (index count : Nat)
  | raised (error : ActionError)
  | recorded (entry : Entry)

structure Note where
  news : News
  place : Place := []

namespace Note

/-- The note as it looks from outside of a turn. -/
def inside (turn : Turn) (n : Note) : Note :=
  { n with place := turn :: n.place }

/-- The record that the note adds to the list of its own place. -/
def entry? : Note → Option Entry
  | ⟨.recorded entry, []⟩ => some entry
  | _ => none

end Note

/-- One request. A call is sent, takes its time in a pause, and is then settled. -/
inductive Request where
  | pause (ms : Nat)
  | send (c : Call)
  | settle (c : Call)
  | status
  | note (n : Note)

def Request.Reply : Request → Type
  | pause _ => Unit
  | send _ => Nat
  | settle c => Except PageError c.Answer
  | status => Option Interrupt
  | note _ => Unit

/-- A routine that ends with an `α`: its requests to the world, apart from how the world answers. -/
inductive Routine (α : Type) : Type where
  | done (value : α)
  | ask (request : Request) (next : request.Reply → Routine α)

namespace Routine

variable {α β : Type}

def bind : Routine α → (α → Routine β) → Routine β
  | done a, f => f a
  | ask r next, f => ask r fun x => (next x).bind f

instance : Monad Routine where
  pure := done
  bind := bind

@[simp] theorem bind_done (a : α) (f : α → Routine β) : (done a).bind f = f a := rfl

@[simp] theorem bind_ask (r : Request) (next : r.Reply → Routine α) (f : α → Routine β) :
    (ask r next).bind f = ask r fun x => (next x).bind f := rfl

theorem bind_pure (p : Routine α) : p.bind done = p := by
  induction p with
  | done a => rfl
  | ask r next ih => exact congrArg (ask r) (funext ih)

theorem bind_assoc {γ : Type} (p : Routine α) (f : α → Routine β) (g : β → Routine γ) :
    (p.bind f).bind g = p.bind fun a => (f a).bind g := by
  induction p with
  | done a => rfl
  | ask r next ih => exact congrArg (ask r) (funext ih)

instance : LawfulMonad Routine :=
  LawfulMonad.mk' Routine bind_pure (fun _ _ => rfl) bind_assoc

def perform (r : Request) : Routine r.Reply :=
  ask r done

def pause (ms : Nat) : Routine Unit :=
  perform (.pause ms)

/-- What stops the run by now, if anything does. -/
def status : Routine (Option Interrupt) :=
  perform .status

def note (news : News) : Routine Unit :=
  perform (.note { news })

/-- Reports a failure where it is raised, and ends with it. -/
def raise (e : ActionError) : Routine (Outcome α) := do
  note (.raised e)
  return .error e

/-- A call from its start to its answer. -/
def call (c : Call) : Routine (Except PageError c.Answer) := do
  let ms ← perform (.send c)
  pause ms
  perform (.settle c)

/--
The routine with its pauses cut to a total of `limit`; nothing if they would be longer. What needs
no pause is never cut.
-/
def within (limit : Nat) : Routine α → Routine (Option α)
  | done a => done (some a)
  | ask (.pause ms) next =>
    if ms ≤ limit then ask (.pause ms) fun x => (next x).within (limit - ms)
    else ask (.pause limit) fun _ => done none
  | ask (.send c) next => ask (.send c) fun x => (next x).within limit
  | ask (.settle c) next => ask (.settle c) fun x => (next x).within limit
  | ask .status next => ask .status fun x => (next x).within limit
  | ask (.note n) next => ask (.note n) fun x => (next x).within limit

/--
The routine as a turn of what runs it: its notes come from inside the turn, and the entries that it
records are added to its result.
-/
def collect (turn : Turn) (soFar : List Entry) : Routine α → Routine (α × List Entry)
  | done a => done (a, soFar)
  | ask (.note n) next =>
    ask (.note (n.inside turn)) fun x => (next x).collect turn (soFar ++ n.entry?.toList)
  | ask (.pause ms) next => ask (.pause ms) fun x => (next x).collect turn soFar
  | ask (.send c) next => ask (.send c) fun x => (next x).collect turn soFar
  | ask (.settle c) next => ask (.settle c) fun x => (next x).collect turn soFar
  | ask .status next => ask .status fun x => (next x).collect turn soFar

end Routine

end PageFlow
