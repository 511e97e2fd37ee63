import PageFlow.Page.Scripted
import PageFlow.Proofs.Run.Bounds
import PageFlow.Proofs.Run.Nesting
import PageFlow.Proofs.Run.Promptness

namespace PageFlow

open Event (here)

mutual

/-- Neither the step nor a step of its fallback list, at any depth, runs an action. -/
def Step.flat : Step → Bool
  | { kind, fallback, .. } => kind ≠ .run && flatAll fallback

def Step.flatAll : List Step → Bool
  | [] => true
  | step :: rest => step.flat && flatAll rest

end

/--
How many steps of the list of a place have started, where the list of the outermost place is what
is left of a list from an index on.
-/
def startedBy (index : Nat) (es : List Event) : Place → Nat
  | [] => index + (startsAt [] es).length
  | turn :: place => (startsAt (turn :: place) es).length

/--
A failure that ends the run is raised in a place by a step of the list of that place: the one after
those that have started, or the last of them. Of the outermost list, what is left from an index on
has so many steps.
-/
structure Blames (frame : Frame) (index size : Nat) (es : List Event) (place : Place)
    (e : ActionError) : Prop where
  fallbacks : place.all Turn.isFallback
  action : e.action = frame.action
  step : ∃ i, e.step? = some i ∧ (i = startedBy index es place ∨ i + 1 = startedBy index es place) ∧
    (place = [] → i < index + size)
  last : ∀ turn ∈ place.head?, turn.index + 1 = startedBy index es []

namespace Blames

variable {frame : Frame} {index index' size size' i : Nat} {es fs : List Event} {place : Place}
  {e : ActionError}

theorem mono (h : Blames frame index size es place e)
    (own : startedBy index es [] = startedBy index' fs [])
    (inner : ∀ turn rest, place = turn :: rest → startsAt place es = startsAt place fs)
    (room : index + size ≤ index' + size') : Blames frame index' size' fs place e := by
  obtain ⟨fallbacks, action, ⟨i, hi, hstarted, hroom⟩, last⟩ := h
  have hsame : startedBy index es place = startedBy index' fs place := by
    cases place with
    | nil => exact own
    | cons turn rest => exact congrArg List.length (inner turn rest rfl)
  refine ⟨fallbacks, action, ⟨i, hi, hsame ▸ hstarted, fun hp => ?_⟩, fun turn ht => ?_⟩
  · exact Nat.lt_of_lt_of_le (hroom hp) room
  · exact own ▸ last turn ht

theorem before (h : e.step? = some index) (action : e.action = frame.action) (pos : 0 < size)
    (none : startsAt [] es = []) : Blames frame index size es [] e where
  fallbacks := rfl
  action := action
  step := ⟨index, h, .inl (by simp [startedBy, none]), fun _ => Nat.lt_add_of_pos_right pos⟩
  last := by simp

theorem again (h : e.step? = some i) (action : e.action = frame.action)
    (none : startsAt [] es = []) : Blames frame (i + 1) 0 es [] e where
  fallbacks := rfl
  action := action
  step := ⟨i, h, .inr (by simp [startedBy, none]), fun _ => Nat.lt_succ_self i⟩
  last := by simp

theorem rescue (h : Blames frame 0 size fs place e)
    (inner : startsAt (.fallback i :: place) es = startsAt place fs) (none : startsAt [] es = []) :
    Blames frame (i + 1) 0 es (.fallback i :: place) e := by
  obtain ⟨fallbacks, action, ⟨j, hj, hstarted, -⟩, -⟩ := h
  have hsame : startedBy 0 fs place = startedBy (i + 1) es (.fallback i :: place) := by
    rw [startedBy, inner]
    cases place with
    | nil => exact Nat.zero_add _
    | cons turn place => rfl
  refine ⟨by simpa [Turn.isFallback] using fallbacks, action, ⟨j, hj, hsame ▸ hstarted, nofun⟩, ?_⟩
  rintro turn ⟨⟩
  simp [startedBy, none, Turn.index]

end Blames

namespace Part

def flat : Part → Bool
  | action _ _ a => Step.flatAll a.steps
  | steps _ _ _ list _ _ => Step.flatAll list
  | step _ _ _ s _ | attempts _ _ _ s _ _ _ | ending _ _ _ s _ _ _ | bounded _ _ _ s _
    | dispatch _ _ _ s _ => s.flat

/-- Which step a part blames for a failure that ends the run; an attempt raises none. -/
def Blames : Part → List Event → Place → ActionError → Prop
  | action _ frame a => PageFlow.Blames frame 0 a.steps.length
  | steps _ frame index list _ _ => PageFlow.Blames frame index list.length
  | step _ frame index _ _ => PageFlow.Blames frame index 1
  | attempts _ frame index _ _ _ _ | ending _ frame index _ _ _ _ =>
    PageFlow.Blames frame (index + 1) 0
  | bounded .. | dispatch .. => fun _ _ _ => False

end Part

theorem GapFree.length_le {steps : List Step} {entries : List Entry} (h : GapFree steps entries) :
    entries.length ≤ steps.length := by
  by_contra hlong
  obtain ⟨step, hstep, -⟩ := h _ _ (List.getElem?_eq_getElem (Nat.lt_of_not_le hlong))
  simp at hstep

variable {σ : Type}

end PageFlow
