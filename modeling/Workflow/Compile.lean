import Workflow.Backend
import Workflow.Contract.Check
import Workflow.Event.Filter
import Workflow.Log

/-! Checking a workflow and handing it to a backend. -/
namespace Workflow

/-- What a compiled workflow is, and what the passes before compilation found. -/
structure Compilation (α : Type) where
  artifact : α
  diagnostics : List Diagnostic
  visibility : VisibilityMap

def Diagnostic.log (diagnostic : Diagnostic) : Log :=
  if DiagnosticLevel.warning ≤ diagnostic.level then
    [⟨.warn, diagnostic.message, [("node", diagnostic.node), ("level", diagnostic.level.name)]⟩]
  else []

/-- The findings that a contract mode asks for. -/
def ContractMode.diagnose (mode : ContractMode) (root : Node) : List Diagnostic :=
  match mode with
  | .unchecked => []
  | .advisory | .strict => check root

/-- In strict mode an error stops the compilation. -/
def ContractMode.admits (mode : ContractMode) (diagnostics : List Diagnostic) : Except Error Unit :=
  match mode, Diagnostic.errors diagnostics with
  | .strict, first :: rest => .error (.contractViolation (rest.length + 1) first.display)
  | _, _ => .ok ()

/-- Checks a workflow as the configuration says and compiles it. -/
def compileChecked {α : Type} (backend : Backend α) (root : Node) (config : Config) :
    Except Error (Compilation α) := do
  let diagnostics := config.contractMode.diagnose root
  config.contractMode.admits diagnostics
  return {
    artifact := backend.compile root config
    diagnostics := diagnostics
    visibility := inferVisibility root config.visibility }

/-- What is logged on the way: the findings, and the end if it is reached. -/
def compileLog {α : Type} (backend : Backend α) (root : Node) (config : Config) : Log :=
  (config.contractMode.diagnose root).flatMap (·.log) ++
    match compileChecked backend root config with
    | .ok compilation =>
      [⟨.info, "Compiled workflow", [("backend", backend.name), ("root", root.name),
        ("nodes", root.count.repr), ("diagnostics", compilation.diagnostics.length.repr)]⟩]
    | .error _ => []

/-- The filter for the events of a compiled workflow. -/
def Compilation.eventFilter {α : Type} (compilation : Compilation α) (config : Config) :
    EventFilter :=
  ⟨compilation.visibility, config.visibility⟩

end Workflow
