import Workflow.Key.Set

/-! Structural schemas: named lists of typed fields. -/
namespace Workflow

inductive FieldType where
  | string
  | integer
  | number
  | boolean
  | array
  | object
  | any
deriving DecidableEq, Repr

namespace FieldType

def all : List FieldType :=
  [.string, .integer, .number, .boolean, .array, .object, .any]

def name : FieldType → String
  | .string => "string"
  | .integer => "integer"
  | .number => "number"
  | .boolean => "boolean"
  | .array => "array"
  | .object => "object"
  | .any => "any"

def ofName? (name : String) : Option FieldType :=
  all.find? fun type => type.name == name

end FieldType

structure SchemaField where
  name : String
  type : FieldType
  required : Bool
deriving DecidableEq, Repr

structure Schema where
  name : String
  fields : List SchemaField
deriving DecidableEq, Repr

namespace Schema

def empty (name : String) : Schema :=
  ⟨name, []⟩

def field (schema : Schema) (name : String) (type : FieldType) (required : Bool) : Schema :=
  { schema with fields := schema.fields ++ [⟨name, type, required⟩] }

/-- The names of the fields. -/
def keys (schema : Schema) : KeySet :=
  .ofList (schema.fields.map (·.name))

end Schema

end Workflow
