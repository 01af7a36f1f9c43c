import Workflow.Config.Document
import Workflow.Inference
import Workflow.Node.Document
import Workflow.Tree.Path

/-! What a runtime would be asked to execute. -/
namespace Workflow

structure PlanStep where
  path : Path
  name : String
  kind : String
  visibility : Visibility
  reads : KeySet
  writes : KeySet

structure Plan where
  config : Config
  /-- One step for each node, each before those below it. -/
  steps : List PlanStep

namespace PlanStep

/-- The number of steps above. -/
def depth (step : PlanStep) : Nat :=
  step.path.length - 1

def pathText (step : PlanStep) : String :=
  step.path.text "."

def ofNode (map : VisibilityMap) (path : Path) (node : Node) : PlanStep where
  path := path
  name := node.name
  kind := node.kind.tag
  visibility := map.getD node.name .internal
  reads := node.reads
  writes := node.writes

def toJson (step : PlanStep) : Json :=
  .object ([("path", .string step.pathText), ("name", .string step.name),
      ("kind", .string step.kind), ("depth", .ofNat step.depth),
      ("visibility", step.visibility.toJson)] ++
    Json.presentKeys "reads" step.reads.toList ++ Json.presentKeys "writes" step.writes.toList)

end PlanStep

namespace Plan

def ofNode (root : Node) (config : Config) : Plan where
  config := config
  steps := root.located.map fun (path, node) =>
    .ofNode (inferVisibility root config.visibility) path node

/-- The first step with a given name. -/
def step? (plan : Plan) (name : String) : Option PlanStep :=
  plan.steps.find? fun step => step.name == name

def toJson (plan : Plan) : Json :=
  .object [("config", plan.config.toJson), ("steps", .array (plan.steps.map (·.toJson)))]

end Plan

end Workflow
