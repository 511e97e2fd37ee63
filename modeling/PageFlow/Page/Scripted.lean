import PageFlow.Json.Printer
import PageFlow.Page.Call

namespace PageFlow

namespace Call

/-- The text by which a selector definition is known. -/
def definitionName (definition : Json) : String :=
  match definition with
  | .object fields =>
    match Table.get? fields "css" with
    | some (.string css) => css
    | _ => definition.compact
  | _ => definition.compact

def operation : Call → String
  | navigate .. => "navigate"
  | locate _ => "locate"
  | resolve .. => "resolve"
  | evaluate _ => "evaluate"
  | keyboard _ => "keyboard"
  | act _ .click => "click"
  | act _ (.fill _) => "fill"
  | act _ (.type _) => "type"
  | act _ (.press _) => "press"
  | act _ (.waitFor ..) => "wait_for"
  | act _ .count => "count"
  | act _ .visible => "visible"

def aim : Call → String
  | navigate url _ => url
  | locate selector => selector
  | resolve definition _ => definitionName definition
  | evaluate script => script
  | keyboard key => key
  | act element _ => element.name

/-- The name under which a script lists the request. -/
def key (c : Call) : String :=
  c.operation ++ ":" ++ c.aim

end Call

/-- A script: delays in milliseconds and failures by request, and answers by what is asked for. -/
structure Script where
  delays : Table Nat := []
  /-- For each request in turn, whether and how it fails; later requests succeed. -/
  failures : Table (List (Option PageError)) := []
  evaluations : Table Json := []
  counts : Table Nat := []
  visible : Table Bool := []

namespace Script

def elementAnswer (s : Script) (element : Element) : (op : ElementOp) → op.Answer
  | .count => (s.counts.get? element.name).getD 0
  | .visible => (s.visible.get? element.name).getD false
  | .click | .fill _ | .type _ | .press _ | .waitFor .. => ()

def answer (s : Script) : (c : Call) → c.Answer
  | .navigate .. | .keyboard _ => ()
  | .locate selector => (⟨selector⟩ : Element)
  | .resolve definition _ => (⟨Call.definitionName definition⟩ : Element)
  | .evaluate script => (s.evaluations.get? script).getD .null
  | .act element op => s.elementAnswer element op

/-- Takes the next failure listed for a request. -/
def takeFailure (s : Script) (key : String) : Option PageError × Script :=
  match s.failures.get? key with
  | some (entry :: rest) => (entry, { s with failures := s.failures.insert key rest })
  | _ => (none, s)

/-- The page that follows the script; its state is what is left of it. -/
def page : Page Script where
  send s _ c := ((s.delays.get? c.key).getD 0, s)
  settle s _ c :=
    match s.takeFailure c.key with
    | (some e, s) => (.error e, s)
    | (none, s) => (.ok (s.answer c), s)

end Script

end PageFlow
