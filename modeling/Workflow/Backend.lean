import Workflow.Plan
import Workflow.Replay

/-! Backends: what makes something executable out of a workflow. -/
namespace Workflow

/-- One message to a workflow. -/
structure Turn where
  /-- Identifies the run that answers it. -/
  invocation : String
  message : String

/-- The events of a run as they come; a run may break off. -/
abbrev EventStream := List (Except Error Event)

/-- All events of a stream, or the failure at which it breaks off. -/
def EventStream.collect (stream : EventStream) : Except Error (List Event) :=
  stream.mapM id

structure Backend (α : Type) where
  name : String
  compile : Node → Config → α
  run : α → Turn → Except Error (List Event)
  stream : α → Turn → EventStream

namespace Backend

/-- Replays canned responses; its artifact is the workflow itself. -/
def mock (table : ResponseTable) : Backend Node where
  name := "mock"
  compile root _ := root
  run root turn := .ok (Replay.events table turn.invocation root)
  stream root turn := (Replay.events table turn.invocation root).map .ok

/-- Makes a plan and refuses to run it. -/
def dryRun : Backend Plan where
  name := "dry-run"
  compile := Plan.ofNode
  run _ _ := .error (.unimplemented "dry-run" "run")
  stream _ _ := [.error (.unimplemented "dry-run" "stream")]

end Backend

end Workflow
