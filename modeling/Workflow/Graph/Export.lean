import Workflow.Graph.Dot
import Workflow.Graph.Mermaid

/-! Rendering a workflow as a graph. -/
namespace Workflow

inductive GraphFormat where
  | mermaid
  | dot
deriving DecidableEq, Repr

def GraphFormat.ofName? : String → Option GraphFormat
  | "mermaid" => some .mermaid
  | "dot" => some .dot
  | _ => none

def exportGraph (format : GraphFormat) (options : Graph.Options) (root : Node) : String :=
  match format with
  | .mermaid => Graph.Mermaid.render options (.ofNode root)
  | .dot => Graph.Dot.render options (.ofNode root)

end Workflow
