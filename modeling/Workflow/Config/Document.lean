import Workflow.Config.Basic
import Workflow.Json.Record

/-! Configurations as documents. -/
namespace Workflow

open Json (Context)

def ContractMode.ofJson? (context : Context) (json : Json) : Option ContractMode :=
  (json.plainName? context).bind ContractMode.ofName?

namespace Middleware

def toJson : Middleware → Json
  | .retry settings =>
    .object [("type", .string "retry"), ("max_retries", .ofNat settings.maxRetries.toNat),
      ("initial_backoff_ms", .ofNat settings.initialBackoffMs.toNat),
      ("max_backoff_ms", .ofNat settings.maxBackoffMs.toNat)]
  | .logging level => .object [("type", .string "logging"), ("level", .string level)]
  | .tokenBudget maxTokens =>
    .object [("type", .string "token_budget"), ("max_tokens", .ofNat maxTokens.toNat)]

def ofJson? (context : Context) (json : Json) : Option Middleware := do
  let (tag, content) ← json.layer.tagged? id context "type" ["retry", "logging", "token_budget"]
  match tag with
  | "retry" =>
    let fields ← content.record? .inner ["max_retries", "initial_backoff_ms", "max_backoff_ms"]
    return .retry {
      maxRetries := ← Json.withDefault fields "max_retries" Retry.default.maxRetries Json.uint32?
      initialBackoffMs :=
        ← Json.withDefault fields "initial_backoff_ms" Retry.default.initialBackoffMs Json.uint64?
      maxBackoffMs :=
        ← Json.withDefault fields "max_backoff_ms" Retry.default.maxBackoffMs Json.uint64? }
  | "logging" =>
    let fields ← content.record? .inner ["level"]
    return .logging (← Json.withDefault fields "level" "info" Json.string?)
  | "token_budget" =>
    let fields ← content.record? .inner ["max_tokens"]
    return .tokenBudget (← Json.required fields "max_tokens" Json.uint64?)
  | _ => none

end Middleware

namespace Compaction

def threshold (value : Option UInt64) : Json :=
  match value with
  | some n => .ofNat n.toNat
  | none => .null

def toJson (compaction : Compaction) : Json :=
  .object [("interval", .ofNat compaction.interval.toNat),
    ("overlap", .ofNat compaction.overlap.toNat),
    ("size_threshold", threshold compaction.sizeThreshold),
    ("token_threshold", threshold compaction.tokenThreshold)]

def ofJson? (context : Context) (json : Json) : Option Compaction := do
  let fields ←
    json.layer.record? context ["interval", "overlap", "size_threshold", "token_threshold"]
  return {
    interval := ← Json.withDefault fields "interval" Compaction.default.interval Json.uint32?
    overlap := ← Json.withDefault fields "overlap" Compaction.default.overlap Json.uint32?
    sizeThreshold := ← Json.optional fields "size_threshold" Json.uint64?
    tokenThreshold := ← Json.optional fields "token_threshold" Json.uint64? }

end Compaction

namespace Config

def toJson (config : Config) : Json :=
  .object [("app_name", .string config.appName),
    ("middleware", .array (config.middleware.map (·.toJson))),
    ("resumable", .bool config.resumable),
    ("compaction", (config.compaction.map (·.toJson)).getD .null),
    ("contract_mode", .string config.contractMode.name),
    ("visibility", config.visibility.toJson)]

def ofJson? (context : Context) (json : Json) : Option Config := do
  let fields ← json.layer.record? context ["app_name", "middleware", "resumable", "compaction",
    "contract_mode", "visibility"]
  return {
    appName := ← Json.withDefault fields "app_name" Config.default.appName Json.string?
    middleware := ← Json.withDefault fields "middleware" [] fun value =>
      value.array?.bind fun elements => elements.mapM (Middleware.ofJson? context)
    resumable := ← Json.withDefault fields "resumable" false Json.bool?
    compaction := ← Json.optional fields "compaction" (Compaction.ofJson? context)
    contractMode :=
      ← Json.withDefault fields "contract_mode" .advisory (ContractMode.ofJson? context)
    visibility :=
      ← Json.withDefault fields "visibility" .filtered (VisibilityPolicy.ofJson? context) }

end Config

end Workflow
