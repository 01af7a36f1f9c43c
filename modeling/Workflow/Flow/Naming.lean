import Workflow.Flow.Basic
import Workflow.Flow.Slug

/-! The names of steps that were given none, from what they do and from the names of the steps below. -/
namespace Workflow.Naming

/-- A name as part of another one loses its leading underscores. -/
def part (name : String) : String :=
  String.ofList (Slug.dropUnderscores name.toList)

def joined (separator : String) (names : List String) : String :=
  separator.intercalate (names.map part)

/-- The name without an ending, if it has it. -/
def withoutEnding (ending name : String) : String :=
  if ending.toList.isSuffixOf name.toList then
    String.ofList (name.toList.take (name.length - ending.length))
  else name

/-- A sequence with a checkpoint is the body of a loop, and the checkpoint does not count. -/
def sequence (names : List String) : String :=
  let steps := names.filter (· != checkpointName)
  let joinedSteps := joined "_then_" steps
  if steps.length = names.length then joinedSteps
  else if joinedSteps = "" then "until_check_body"
  else joinedSteps ++ "_body"

def loop (body : String) (bound : UInt32) (exit : Option Predicate) : String :=
  match exit with
  | some _ => withoutEnding "_body" (part body) ++ "_loop"
  | none => part body ++ "_x" ++ bound.toNat.repr

def tap : TapAction → String
  | .log [] => "tap"
  | .log keys => "tap_" ++ joined "_" keys
  | .checkpoint _ => checkpointName

/-- The keys that operations write, each once, in the order in which they come up. -/
def writtenKeys (ops : List StateOp) : List String :=
  (ops.flatMap fun op => op.writes.toList).eraseDups

def transform (ops : List StateOp) : String :=
  let keys := joined "_" (writtenKeys ops)
  if keys = "" then "transform" else "transform_" ++ keys

/-- The name of a step. An agent has none but its own. -/
def derive (kind : Kind Node) : String :=
  match kind with
  | .leaf _ => ""
  | .sequence children => sequence (children.map (·.name))
  | .parallel children => joined "_and_" (children.map (·.name))
  | .loop body bound exit => loop body.name bound exit
  | .transform ops => transform ops
  | .tap action => tap action
  | .fallback children => joined "_or_" (children.map (·.name))
  | .race children => "race_" ++ joined "_" (children.map (·.name))
  | .gate _ message _ => "gate_" ++ slug message
  | .mapOver _ listKey _ _ => "map_" ++ part listKey
  | .timeout body _ => part body.name ++ "_timeout"
  | .route key _ _ => "route_" ++ part key
  | .transfer target _ => "transfer_to_" ++ part target
  | .capture key => "capture_" ++ part key

end Workflow.Naming
