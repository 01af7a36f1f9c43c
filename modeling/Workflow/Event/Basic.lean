import Workflow.State
import Workflow.Timestamp.Basic
import Workflow.Visibility

/-! Events that a run of a workflow emits. -/
namespace Workflow

inductive FailureKind where
  | timeout
  | tool
  | cancelled
  | other
deriving DecidableEq, Repr

namespace FailureKind

def name : FailureKind → String
  | .timeout => "timeout"
  | .tool => "tool"
  | .cancelled => "cancelled"
  | .other => "other"

def ofName? (name : String) : Option FailureKind :=
  [timeout, tool, cancelled, other].find? fun kind => kind.name == name

end FailureKind

structure Failure where
  kind : FailureKind
  message : String
deriving DecidableEq, Repr

/-- What an event asks for. -/
structure EventActions where
  stateDelta : State
  transferTo : Option String
  /-- Leaves the loop around it, or pauses for approval. -/
  escalate : Bool

def EventActions.none : EventActions := ⟨∅, Option.none, false⟩

structure Event where
  id : String
  invocation : String
  /-- The name of the node that emitted it. -/
  author : String
  content : Option String
  actions : EventActions
  failure : Option Failure
  /-- Whether more content follows. -/
  isPartial : Bool
  timestamp : Timestamp
  /-- The class with which a filter marked it. -/
  visibility : Option Visibility

namespace Event

/-- An event without content. Its identity and time are for the runtime to fill in. -/
def blank (author : String) : Event where
  id := ""
  invocation := ""
  author := author
  content := none
  actions := .none
  failure := none
  isPartial := false
  timestamp := .epoch
  visibility := none

def text (author text : String) : Event :=
  { blank author with content := some text }

/-- A fragment of a text that is still coming. -/
def partialText (author text : String) : Event :=
  { blank author with content := some text, isPartial := true }

def state (author : String) (delta : State) : Event :=
  { blank author with actions := { EventActions.none with stateDelta := delta } }

def failed (author : String) (kind : FailureKind) (message : String) : Event :=
  { blank author with failure := some ⟨kind, message⟩ }

def escalation (author reason : String) : Event :=
  { blank author with
    content := some reason
    actions := { EventActions.none with escalate := true } }

def transfer (author target : String) : Event :=
  { blank author with actions := { EventActions.none with transferTo := some target } }

def withInvocation (event : Event) (invocation : String) : Event :=
  { event with invocation := invocation }

def isFailure (event : Event) : Bool :=
  event.failure.isSome

def isEscalation (event : Event) : Bool :=
  event.actions.escalate

/-- Complete, and not handing control elsewhere. -/
def isFinal (event : Event) : Bool :=
  !event.isPartial && event.actions.transferTo.isNone

end Event

/-- The text of the last final event that carries one. -/
def finalResponse (events : List Event) : Option String :=
  (events.reverse.filter fun event => event.isFinal && !event.isFailure).findSome? (·.content)

/-- All changes in order; later writes win, and null removes. -/
def mergedState (events : List Event) : State :=
  events.foldl (fun state event => state.merge event.actions.stateDelta) ∅

end Workflow
