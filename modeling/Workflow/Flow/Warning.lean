import Workflow.Flow.Lower
import Workflow.Log
import Workflow.Text.Quoted

/-! Warnings about steps whose declared keys differ from those of their schema. -/
namespace Workflow.Flow

/-- A set as it is shown in a warning. -/
def showKeys (keys : KeySet) : String :=
  "\x7b" ++ ", ".intercalate (keys.toList.map Text.quoted) ++ "\x7d"

/-- Declared keys that differ from those of the schema have no effect. -/
def disagreement (node what : String) (declared : KeySet) (schema : Option Schema) : Log :=
  match schema with
  | some schema =>
    if declared.isEmpty || declared == schema.keys then []
    else
      [⟨.warn, "Explicit " ++ what ++ " disagree with schema; schema wins",
        [("node", node), ("explicit", showKeys declared), ("schema", showKeys schema.keys)]⟩]
  | none => []

def contractWarnings (node : Node) : Log :=
  disagreement node.name "writes" node.contract.writes node.contract.produces ++
    disagreement node.name "reads" node.contract.reads node.contract.consumes

/-- The warnings of the steps up to the first that fails. -/
def warningsUntilFailure : List (Log × Except Error Node) → Log
  | [] => []
  | (log, .ok _) :: rest => log ++ warningsUntilFailure rest
  | (log, .error _) :: _ => log

def lowerLoggedStep (flow : Flow) (below : Kind (Log × Except Error Node)) :
    Log × Except Error Node :=
  let result := lowerStep flow (below.map (·.2))
  let own :=
    match result with
    | .ok node => contractWarnings node
    | .error _ => []
  (warningsUntilFailure below.children ++ own, result)

/-- Lowers an expression and tells what was noticed on the way. -/
def lowerLogged (flow : Flow) : Log × Except Error Node :=
  flow.fold lowerLoggedStep

end Workflow.Flow
