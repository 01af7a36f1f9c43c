import Workflow.Contract.Availability
import Workflow.Contract.Liveness

/-! The contract check: what each step finds missing, and what nobody uses. -/
namespace Workflow

/-- Checks a tree with some keys available from the start. -/
def checkWith (root : Node) (seed : KeySet) : List Diagnostic :=
  (Availability.pass root seed).diagnostics ++ Liveness.deadOutputs root

def check (root : Node) : List Diagnostic :=
  checkWith root ∅

end Workflow
