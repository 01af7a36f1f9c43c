import Workflow.Json.Record
import Workflow.StateOp.Basic

/-! State operations as JSON documents. -/
namespace Workflow.StateOp

open Json (Context required withDefault)

def toJson : StateOp → Json
  | .set key value => .object [("op", .string "set"), ("key", .string key), ("value", value)]
  | .default key value =>
    .object [("op", .string "default"), ("key", .string key), ("value", value)]
  | .copy source target =>
    .object [("op", .string "copy"), ("from", .string source), ("to", .string target)]
  | .rename source target =>
    .object [("op", .string "rename"), ("from", .string source), ("to", .string target)]
  | .drop key => .object [("op", .string "drop"), ("key", .string key)]
  | .merge keys target separator =>
    .object [("op", .string "merge"), ("keys", Json.ofStrings keys), ("into", .string target),
      ("separator", .string separator)]

/-- The tags of the alternatives, in the order of their definition. -/
def tags : List String :=
  ["set", "default", "copy", "rename", "drop", "merge"]

def defaultSeparator : String := "\n"

def ofJson? (context : Context) (json : Json) : Option StateOp := do
  let (tag, content) ← json.layer.tagged? id context "op" tags
  match tag with
  | "set" =>
    let fields ← content.record? .inner ["key", "value"]
    return .set (← required fields "key" Json.string?) (← fields.lookup "value")
  | "default" =>
    let fields ← content.record? .inner ["key", "value"]
    return .default (← required fields "key" Json.string?) (← fields.lookup "value")
  | "copy" =>
    let fields ← content.record? .inner ["from", "to"]
    return .copy (← required fields "from" Json.string?) (← required fields "to" Json.string?)
  | "rename" =>
    let fields ← content.record? .inner ["from", "to"]
    return .rename (← required fields "from" Json.string?) (← required fields "to" Json.string?)
  | "drop" =>
    let fields ← content.record? .inner ["key"]
    return .drop (← required fields "key" Json.string?)
  | "merge" =>
    let fields ← content.record? .inner ["keys", "into", "separator"]
    return .merge (← required fields "keys" Json.strings?) (← required fields "into" Json.string?)
      (← withDefault fields "separator" defaultSeparator Json.string?)
  | _ => none

def listOfJson? (context : Context) (json : Json) : Option (List StateOp) :=
  json.array?.bind fun elements => elements.mapM (ofJson? context)

end Workflow.StateOp
