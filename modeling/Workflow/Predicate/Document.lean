import Workflow.Json.Record
import Workflow.Predicate.Basic

/-! Predicates as JSON documents. -/
namespace Workflow.Predicate

open Json (Layer Context)

mutual

def toJson : Predicate → Json
  | .truthy key => .object [("type", .string "truthy"), ("key", .string key)]
  | .present key => .object [("type", .string "exists"), ("key", .string key)]
  | .equals key value =>
    .object [("type", .string "equals"), ("key", .string key), ("value", value)]
  | .contains key needle =>
    .object [("type", .string "contains"), ("key", .string key), ("needle", .string needle)]
  | .not inner => .object [("type", .string "not"), ("inner", inner.toJson)]
  | .all of => .object [("type", .string "all"), ("of", .array (listToJson of))]
  | .any of => .object [("type", .string "any"), ("of", .array (listToJson of))]

def listToJson : List Predicate → List Json
  | [] => []
  | first :: rest => first.toJson :: listToJson rest

end

/-- The tags of the alternatives, in the order of their definition. -/
def tags : List String :=
  ["truthy", "exists", "equals", "contains", "not", "all", "any"]

/-- What a JSON value is when it is read as one predicate and as a list of them. -/
structure Reading where
  one : Context → Option Predicate
  many : Option (List Predicate)

def Reading.ofTagged (tag : String) (content : Layer (Json × Reading)) : Option Predicate := do
  let string (part : Json × Reading) : Option String := part.1.string?
  match tag with
  | "truthy" =>
    let fields ← content.record? .inner ["key"]
    return .truthy (← Json.required fields "key" string)
  | "exists" =>
    let fields ← content.record? .inner ["key"]
    return .present (← Json.required fields "key" string)
  | "equals" =>
    let fields ← content.record? .inner ["key", "value"]
    return .equals (← Json.required fields "key" string) (← fields.lookup "value").1
  | "contains" =>
    let fields ← content.record? .inner ["key", "needle"]
    return .contains (← Json.required fields "key" string) (← Json.required fields "needle" string)
  | "not" =>
    let fields ← content.record? .inner ["inner"]
    return .not (← Json.required fields "inner" fun part => part.2.one .inner)
  | "all" =>
    let fields ← content.record? .inner ["of"]
    return .all (← Json.required fields "of" fun part => part.2.many)
  | "any" =>
    let fields ← content.record? .inner ["of"]
    return .any (← Json.required fields "of" fun part => part.2.many)
  | _ => none

def Reading.ofLayer (layer : Layer (Json × Reading)) : Reading where
  one context := do
    let (tag, content) ← layer.tagged? Prod.fst context "type" tags
    ofTagged tag content
  many :=
    match layer with
    | .array elements => elements.mapM fun part => part.2.one .inner
    | _ => none

def ofJson? (context : Context) (json : Json) : Option Predicate :=
  (Json.fold Reading.ofLayer json).one context

end Workflow.Predicate
