import Workflow.Error
import Workflow.Event.Basic
import Workflow.Tree.Basic

/-! Replaying a workflow against canned responses. -/
namespace Workflow

/-- What a node answers with. -/
inductive Response where
  | text (text : String)
  | state (delta : State)

/-- The responses of nodes by name. -/
abbrev ResponseTable := KeyMap Response

namespace ResponseTable

/-- Text stands for a reply, an object for a change of the state. -/
def ofJson (json : Json) : Except Error ResponseTable := do
  let some fields := json.object?
    | throw (.backend "mock table must be a JSON object")
  let entries ← fields.mapM fun (name, value) =>
    match value with
    | .string text => return (name, Response.text text)
    | .object delta => return (name, Response.state (KeyMap.ofList delta))
    | other =>
      throw (.backend ("mock response for '" ++ name ++
        "' must be a string or an object, got " ++ other.compactText))
  return KeyMap.ofList entries

end ResponseTable

namespace Replay

/-- The event of a node that has no steps below it. A node without a response says so. -/
def eventOf (table : ResponseTable) (name : String) : Event :=
  match table.get? name with
  | some (.text text) => .text name text
  | some (.state delta) => .state name delta
  | none => .text name ("[mock:" ++ name ++ "]")

def step (table : ResponseTable) (node : Node) (below : Kind (List Event)) : List Event :=
  if node.children.isEmpty then [eventOf table node.name] else below.children.flatten

/-- The events of all nodes that have no steps below them, in order. -/
def events (table : ResponseTable) (invocation : String) (root : Node) : List Event :=
  (root.fold (step table)).map (·.withInvocation invocation)

end Replay

end Workflow
