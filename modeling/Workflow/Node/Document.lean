import Workflow.Predicate.Document
import Workflow.Schema.Document
import Workflow.StateOp.Document
import Workflow.Tree.Basic

/-! Nodes as JSON documents. -/
namespace Workflow

open Json (Context Layer)

namespace Number.Single

/-- Among JSON values a single is the double of the same value; infinity has no number. -/
def toJson (x : Single) : Json :=
  match x.toDouble? with
  | some value => .number (.double value)
  | none => .null

/-- In text a single has the fewest digits that tell it from other singles. -/
def toTextJson : Single → Json
  | .finite x => .number (.single x)
  | .infinite _ => .null

end Number.Single

namespace Generation

def toJson (single : Number.Single → Json) (generation : Generation) : Json :=
  .object (Json.present "temperature" single generation.temperature ++
    Json.present "top_p" single generation.topP ++
    Json.present "max_output_tokens" (fun n => Json.ofNat n.toNat) generation.maxOutputTokens)

def ofJson? (json : Json) : Option Generation := do
  let fields ← json.layer.record? .inner ["temperature", "top_p", "max_output_tokens"]
  return {
    temperature := ← Json.optional fields "temperature" Json.single?
    topP := ← Json.optional fields "top_p" Json.single?
    maxOutputTokens := ← Json.optional fields "max_output_tokens" Json.uint32? }

end Generation

namespace AgentSpec

def fields (single : Number.Single → Json) (spec : AgentSpec) : List (String × Json) :=
  Json.present "model" .string spec.model ++
  Json.present "instruction" .string spec.instruction ++
  Json.present "description" .string spec.description ++
  Json.presentKeys "tools" spec.tools ++
  Json.present "output_key" .string spec.outputKey ++
  Json.present "output_schema" Schema.toJson spec.outputSchema ++
  Json.present "generation" (Generation.toJson single) spec.generation ++
  [("include_history", .bool spec.includeHistory)]

def ofLayer? (layer : Layer Json) : Option AgentSpec := do
  let fields ← layer.record? .inner ["model", "instruction", "description", "tools", "output_key",
    "output_schema", "generation", "include_history"]
  return {
    model := ← Json.optional fields "model" Json.string?
    instruction := ← Json.optional fields "instruction" Json.string?
    description := ← Json.optional fields "description" Json.string?
    tools := ← Json.withDefault fields "tools" [] Json.strings?
    outputKey := ← Json.optional fields "output_key" Json.string?
    outputSchema := ← Json.optional fields "output_schema" (Schema.ofJson? .inner)
    generation := ← Json.optional fields "generation" Generation.ofJson?
    includeHistory := ← Json.withDefault fields "include_history" true Json.bool? }

end AgentSpec

namespace TapAction

def toJson : TapAction → Json
  | .log keys => .object [("action", .string "log"), ("keys", .ofStrings keys)]
  | .checkpoint exit => .object [("action", .string "checkpoint"), ("until", exit.toJson)]

def ofJson? (json : Json) : Option TapAction := do
  let (tag, content) ← json.layer.tagged? id .inner "action" ["log", "checkpoint"]
  match tag with
  | "log" =>
    let fields ← content.record? .inner ["keys"]
    return .log (← Json.required fields "keys" Json.strings?)
  | "checkpoint" =>
    let fields ← content.record? .inner ["until"]
    return .checkpoint (← Json.required fields "until" (Predicate.ofJson? .inner))
  | _ => none

end TapAction

namespace Contract

def fields (contract : Contract) : List (String × Json) :=
  Json.presentKeys "reads" contract.reads.toList ++
  Json.presentKeys "writes" contract.writes.toList ++
  Json.present "produces" Schema.toJson contract.produces ++
  Json.present "consumes" Schema.toJson contract.consumes ++
  Json.present "visibility" Visibility.toJson contract.visibility

def keys? (json : Json) : Option KeySet :=
  json.strings?.map KeySet.ofList

def ofFields? (fields : List (String × Json)) : Option Contract := do
  return {
    reads := ← Json.withDefault fields "reads" ∅ keys?
    writes := ← Json.withDefault fields "writes" ∅ keys?
    produces := ← Json.optional fields "produces" (Schema.ofJson? .inner)
    consumes := ← Json.optional fields "consumes" (Schema.ofJson? .inner)
    visibility := ← Json.optional fields "visibility" (Visibility.ofJson? .inner) }

end Contract

namespace Kind

/-- The fields of a kind, the tag first. -/
def fields (single : Number.Single → Json) (kind : Kind Json) : List (String × Json) :=
  ("type", .string kind.tag) ::
    match kind with
    | .leaf spec => spec.fields single
    | .sequence children | .parallel children | .fallback children | .race children =>
      [("children", .array children)]
    | .loop body maxIterations exit =>
      [("body", body), ("max_iterations", .ofNat maxIterations.toNat)] ++
        Json.present "until" Predicate.toJson exit
    | .transform ops => [("ops", .array (ops.map (·.toJson)))]
    | .tap action => [("action", action.toJson)]
    | .gate predicate message approvalKey =>
      [("predicate", predicate.toJson), ("message", .string message),
        ("approval_key", .string approvalKey)]
    | .mapOver body listKey itemKey outputKey =>
      [("body", body), ("list_key", .string listKey), ("item_key", .string itemKey),
        ("output_key", .string outputKey)]
    | .timeout body deadlineMs => [("body", body), ("deadline_ms", .ofNat deadlineMs.toNat)]
    | .route key rules otherwise =>
      [("key", .string key), ("rules", .array (rules.map fun rule =>
        .object [("predicate", rule.predicate.toJson), ("target", rule.target)]))] ++
        Json.present "default" id otherwise
    | .transfer target condition =>
      ("target", .string target) :: Json.present "condition" Predicate.toJson condition
    | .capture key => [("key", .string key)]

end Kind

namespace Node

/-- The document of a node, with a choice for the numbers of single precision. -/
def document (single : Number.Single → Json) (node : Node) : Json :=
  node.fold fun node kind =>
    .object (("name", .string node.name) :: node.contract.fields ++
      [("kind", .object (kind.fields single))])

def toJson (node : Node) : Json :=
  document Number.Single.toJson node

/-- The document as text, its fields in the order of their definition. -/
def text (node : Node) : String :=
  (document Number.Single.toTextJson node).compactText

/-- What a JSON value is when it is read as the kind of a node, as a node, as a rule of a route, and as a
list of nodes or rules. -/
structure Reading where
  kind : Context → Option (Kind Node)
  one : Context → Option Node
  rule : Option (Rule Node)
  many : Option (List Node)
  rules : Option (List (Rule Node))

/-- A value and what it is when it is read. -/
abbrev Part := Json × Reading

namespace Reading

def required {α : Type} (fields : List (String × Part)) (name : String) (read : Json → Option α) :
    Option α :=
  Json.required fields name fun part => read part.1

def optional {α : Type} (fields : List (String × Part)) (name : String) (read : Json → Option α) :
    Option (Option α) :=
  Json.withDefault fields name none fun part => Json.nullable read part.1

def body (fields : List (String × Part)) : Option Node :=
  Json.required fields "body" fun part => part.2.one .inner

def children (content : Layer Part) : Option (List Node) := do
  let fields ← content.record? .inner ["children"]
  Json.required fields "children" fun part => part.2.many

def kindOfTagged (tag : String) (content : Layer Part) : Option (Kind Node) := do
  match tag with
  | "leaf" => return .leaf (← AgentSpec.ofLayer? (content.map Prod.fst))
  | "sequence" => return .sequence (← children content)
  | "parallel" => return .parallel (← children content)
  | "loop" =>
    let fields ← content.record? .inner ["body", "max_iterations", "until"]
    return .loop (← body fields) (← required fields "max_iterations" Json.uint32?)
      (← optional fields "until" (Predicate.ofJson? .inner))
  | "transform" =>
    let fields ← content.record? .inner ["ops"]
    return .transform (← required fields "ops" (StateOp.listOfJson? .inner))
  | "tap" =>
    let fields ← content.record? .inner ["action"]
    return .tap (← required fields "action" TapAction.ofJson?)
  | "fallback" => return .fallback (← children content)
  | "race" => return .race (← children content)
  | "gate" =>
    let fields ← content.record? .inner ["predicate", "message", "approval_key"]
    return .gate (← required fields "predicate" (Predicate.ofJson? .inner))
      (← required fields "message" Json.string?) (← required fields "approval_key" Json.string?)
  | "map_over" =>
    let fields ← content.record? .inner ["body", "list_key", "item_key", "output_key"]
    return .mapOver (← body fields) (← required fields "list_key" Json.string?)
      (← required fields "item_key" Json.string?) (← required fields "output_key" Json.string?)
  | "timeout" =>
    let fields ← content.record? .inner ["body", "deadline_ms"]
    return .timeout (← body fields) (← required fields "deadline_ms" Json.uint64?)
  | "route" =>
    let fields ← content.record? .inner ["key", "rules", "default"]
    let otherwise ← Json.withDefault fields "default" none fun part =>
      if part.1.isNull then some none else (part.2.one .inner).map some
    return .route (← required fields "key" Json.string?)
      (← Json.required fields "rules" fun part => part.2.rules) otherwise
  | "transfer" =>
    let fields ← content.record? .inner ["target", "condition"]
    return .transfer (← required fields "target" Json.string?)
      (← optional fields "condition" (Predicate.ofJson? .inner))
  | "capture" =>
    let fields ← content.record? .inner ["key"]
    return .capture (← required fields "key" Json.string?)
  | _ => none

def ofLayer (layer : Layer Part) : Reading where
  kind context := do
    let (tag, content) ← layer.tagged? Prod.fst context "type" Kind.tags
    kindOfTagged tag content
  one context :=
    match layer with
    | .object fields => do
      let raw := fields.map fun (name, part) => (name, part.1)
      return .mk (← required fields "name" Json.string?) (← Contract.ofFields? raw)
        (← Json.required fields "kind" fun part => part.2.kind context)
    | _ => none
  rule := do
    let fields ← layer.record? .inner ["predicate", "target"]
    return ⟨← required fields "predicate" (Predicate.ofJson? .inner),
      ← Json.required fields "target" fun part => part.2.one .inner⟩
  many :=
    match layer with
    | .array elements => elements.mapM fun part => part.2.one .inner
    | _ => none
  rules :=
    match layer with
    | .array elements => elements.mapM fun part => part.2.rule
    | _ => none

end Reading

def ofJson? (context : Context) (json : Json) : Option Node :=
  (Json.fold Reading.ofLayer json).one context

end Node

end Workflow
