import Workflow.Error
import Workflow.Tree.Basic

/-! Workflow expressions: trees whose names may still be open, and how they are put together. -/
namespace Workflow

/-- A step that need not have a name yet. -/
abbrev Flow := Tree (Option String)

/-- The name of the checkpoint at the end of the body of a loop that runs until a condition holds. -/
def checkpointName : String := "_until_check"

/-- The bound of a loop for which only a condition is given. -/
def defaultMaxIterations : UInt32 := 10

def defaultItemKey : String := "_item"

def defaultResultsKey : String := "results"

/-- The time of a deadline in milliseconds, of which there are at most as many as a word holds. Nothing if the
seconds themselves are too many. -/
def deadlineMs? (seconds nanoseconds : Nat) : Option UInt64 :=
  let seconds := seconds + nanoseconds / 1000000000
  if seconds < UInt64.size then
    some (.ofNat (min (seconds * 1000 + nanoseconds % 1000000000 / 1000000) (UInt64.size - 1)))
  else none

namespace Flow

/-- An expression without a name and without a contract. -/
def ofKind (kind : Kind Flow) : Flow :=
  .mk none .empty kind

def named (flow : Flow) (name : String) : Flow :=
  .mk (some name) flow.contract flow.kind

def mapContract (flow : Flow) (change : Contract → Contract) : Flow :=
  .mk flow.name (change flow.contract) flow.kind

/-- Whether the expression may be absorbed by a group around it. -/
def isAnonymous (flow : Flow) : Bool :=
  flow.name.isNone && flow.contract.isEmpty

def kindName (flow : Flow) : String :=
  match flow.kind with
  | .leaf _ => "agent"
  | kind => kind.tag

/-- The name of the expression in messages. -/
def label (flow : Flow) : String :=
  flow.name.getD flow.kindName

/-- The key of one step, given those of the steps below it: that of a sequence is that of its last step. -/
def outputKeyStep (_ : Flow) : Kind (Option String) → Option String
  | .leaf spec => spec.outputKey
  | .sequence keys => keys.getLast?.join
  | .mapOver _ _ _ outputKey => some outputKey
  | .capture key => some key
  | _ => none

/-- The key that the result of the expression is stored under, if it is known. -/
def outputKey? (flow : Flow) : Option String :=
  flow.fold outputKeyStep

/-- The members of an anonymous group that `members` recognises, or else the expression itself. -/
def splice (members : Kind Flow → Option (List Flow)) (flow : Flow) : List Flow :=
  if flow.isAnonymous then (members flow.kind).getD [flow] else [flow]

def sequenceMembers : Kind Flow → Option (List Flow)
  | .sequence steps => some steps
  | _ => none

def parallelMembers : Kind Flow → Option (List Flow)
  | .parallel branches => some branches
  | _ => none

def fallbackMembers : Kind Flow → Option (List Flow)
  | .fallback options => some options
  | _ => none

/-- One step after another. An anonymous sequence among the steps becomes part of this one. -/
def sequence (steps : List Flow) : Flow :=
  ofKind (.sequence (steps.flatMap (splice sequenceMembers)))

/-- All steps at once. -/
def parallel (branches : List Flow) : Flow :=
  ofKind (.parallel (branches.flatMap (splice parallelMembers)))

/-- Each step if those before it fail. -/
def fallback (options : List Flow) : Flow :=
  ofKind (.fallback (options.flatMap (splice fallbackMembers)))

/-- Whichever step is first. Races inside of races stay what they are. -/
def race (contenders : List Flow) : Flow :=
  ofKind (.race contenders)

def andThen (flow next : Flow) : Flow :=
  sequence [flow, next]

def alongside (flow other : Flow) : Flow :=
  parallel [flow, other]

def orElse (flow other : Flow) : Flow :=
  fallback [flow, other]

def tap (keys : List String) : Flow :=
  ofKind (.tap (.log keys))

def transform (ops : List StateOp) : Flow :=
  ofKind (.transform ops)

def capture (key : String) : Flow :=
  ofKind (.capture key)

def gateWithKey (predicate : Predicate) (message approvalKey : String) : Flow :=
  ofKind (.gate predicate message approvalKey)

def transfer (target : String) (condition : Option Predicate) : Flow :=
  ofKind (.transfer target condition)

def timeout (body : Flow) (deadlineMs : UInt64) : Flow :=
  ofKind (.timeout body deadlineMs)

/-- Exactly `count` times. -/
def times (body : Flow) (count : UInt32) : Flow :=
  ofKind (.loop body count none)

/-- The step at the end of a loop that looks whether to leave it. -/
def checkpoint (exit : Predicate) : Flow :=
  (ofKind (.tap (.checkpoint exit))).named checkpointName

/-- Until the condition holds, but at most `bound` times. -/
def repeatUntil (body : Flow) (exit : Predicate) (bound : UInt32) : Flow :=
  ofKind (.loop (body.andThen (checkpoint exit)) bound (some exit))

/-- As long as the condition holds, but at most `bound` times. -/
def retryIf (body : Flow) (condition : Predicate) (bound : UInt32) : Flow :=
  body.repeatUntil (.not condition) bound

end Flow

end Workflow
