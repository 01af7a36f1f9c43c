import Workflow.Diagnostic
import Workflow.Template
import Workflow.Tree.Basic

/-! The keys that must be available when a step begins. -/
namespace Workflow.Node

/-- What the kind of a step asks for besides its reads: the required placeholders of an instruction, and
the keys that the rules of a route look at. -/
def impliedDemand (node : Node) : List String :=
  match node.kind with
  | .leaf spec => (spec.instruction.map requiredKeys).getD []
  | .route _ rules _ => rules.flatMap fun rule => rule.predicate.keys.toList
  | _ => []

/-- Every key that the step asks for. -/
def demand (node : Node) : KeySet :=
  node.reads.insertAll node.impliedDemand

end Workflow.Node
