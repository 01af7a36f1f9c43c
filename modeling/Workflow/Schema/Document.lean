import Workflow.Error
import Workflow.Json.Printer
import Workflow.Json.Record
import Workflow.Schema.Basic

/-! Schemas as JSON documents, and the reading of JSON Schema. -/
namespace Workflow

open Json (Context)

def FieldType.ofJson? (context : Context) (json : Json) : Option FieldType :=
  (json.plainName? context).bind FieldType.ofName?

namespace SchemaField

def toJson (field : SchemaField) : Json :=
  .object [("name", .string field.name), ("type", .string field.type.name),
    ("required", .bool field.required)]

def ofJson? (context : Context) (json : Json) : Option SchemaField := do
  let fields ← json.layer.record? context ["name", "type", "required"]
  return {
    name := ← Json.required fields "name" Json.string?
    type := ← Json.required fields "type" (FieldType.ofJson? context)
    required := ← Json.withDefault fields "required" true Json.bool? }

end SchemaField

namespace Schema

def toJson (schema : Schema) : Json :=
  .object [("name", .string schema.name), ("fields", .array (schema.fields.map (·.toJson)))]

def ofJson? (context : Context) (json : Json) : Option Schema := do
  let fields ← json.layer.record? context ["name", "fields"]
  return {
    name := ← Json.required fields "name" Json.string?
    fields := ← Json.withDefault fields "fields" [] fun value =>
      value.array?.bind fun elements => elements.mapM (SchemaField.ofJson? context) }

/-- The type that a JSON Schema gives to a property; what it does not say may be anything. -/
def propertyType (property : Json) : FieldType :=
  ((property.field? "type").bind Json.string?).bind FieldType.ofName? |>.getD .any

/-- Only an object schema with properties is structural. -/
def ofJsonSchema (document : Json) : Except Error Schema := do
  let some fields := document.object?
    | throw (.notStructural ("expected a JSON object, got " ++ document.compactText))
  match (fields.lookup "type").bind Json.string? with
  | some "object" => pure ()
  | some other =>
    throw (.notStructural ("schema type is '" ++ other ++ "', expected 'object'"))
  | none => throw (.notStructural "schema has no 'type'")
  let some properties := (fields.lookup "properties").bind Json.object?
    | throw (.notStructural "object schema has no 'properties'")
  let needed := ((fields.lookup "required").bind Json.array?).getD [] |>.filterMap Json.string?
  return {
    name := ((fields.lookup "title").bind Json.string?).getD "Schema"
    fields := properties.map fun (name, property) =>
      ⟨name, propertyType property, needed.contains name⟩ }

end Schema

end Workflow
