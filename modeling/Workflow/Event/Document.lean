import Workflow.Event.Basic
import Workflow.Node.Document
import Workflow.Timestamp.Parser
import Workflow.Timestamp.Printer

/-! Events as JSON documents. -/
namespace Workflow

open Json (Context)

namespace FailureKind

def ofJson? (context : Context) (json : Json) : Option FailureKind :=
  (json.plainName? context).bind ofName?

end FailureKind

namespace Failure

def toJson (failure : Failure) : Json :=
  .object [("kind", .string failure.kind.name), ("message", .string failure.message)]

def ofJson? (context : Context) (json : Json) : Option Failure := do
  let fields ← json.layer.record? context ["kind", "message"]
  return {
    kind := ← Json.required fields "kind" (FailureKind.ofJson? context)
    message := ← Json.required fields "message" Json.string? }

end Failure

namespace EventActions

def toJson (actions : EventActions) : Json :=
  .object ((if actions.stateDelta.isEmpty then [] else [("state_delta", actions.stateDelta.toJson)]) ++
    Json.present "transfer_to" .string actions.transferTo ++ [("escalate", .bool actions.escalate)])

def ofJson? (context : Context) (json : Json) : Option EventActions := do
  let fields ← json.layer.record? context ["state_delta", "transfer_to", "escalate"]
  return {
    stateDelta := ← Json.withDefault fields "state_delta" ∅ State.ofJson?
    transferTo := ← Json.optional fields "transfer_to" Json.string?
    escalate := ← Json.withDefault fields "escalate" false Json.bool? }

end EventActions

namespace Event

def toJson (event : Event) : Json :=
  .object ([("id", .string event.id), ("invocation_id", .string event.invocation),
      ("author", .string event.author)] ++
    Json.present "content" .string event.content ++
    [("actions", event.actions.toJson)] ++
    Json.present "failure" Failure.toJson event.failure ++
    [("partial", .bool event.isPartial), ("timestamp", .string event.timestamp.text)] ++
    Json.present "visibility" Visibility.toJson event.visibility)

def ofJson? (context : Context) (json : Json) : Option Event := do
  let fields ← json.layer.record? context ["id", "invocation_id", "author", "content", "actions",
    "failure", "partial", "timestamp", "visibility"]
  return {
    id := ← Json.required fields "id" Json.string?
    invocation := ← Json.withDefault fields "invocation_id" "" Json.string?
    author := ← Json.required fields "author" Json.string?
    content := ← Json.optional fields "content" Json.string?
    actions := ← Json.withDefault fields "actions" .none (EventActions.ofJson? context)
    failure := ← Json.optional fields "failure" (Failure.ofJson? context)
    isPartial := ← Json.withDefault fields "partial" false Json.bool?
    timestamp := ← Json.required fields "timestamp" fun value => value.string?.bind Timestamp.parse?
    visibility := ← Json.optional fields "visibility" (Visibility.ofJson? context) }

end Event

end Workflow
