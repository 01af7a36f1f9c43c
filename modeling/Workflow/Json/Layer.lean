import Workflow.Json.Basic

/-! One level of a JSON value, and recursion over whole values level by level. -/
namespace Workflow.Json

/-- A value with its direct parts replaced by something computed from them. -/
inductive Layer (α : Type) where
  | scalar (value : Json)
  | array (elements : List α)
  | object (fields : List (String × α))

def layer : Json → Layer Json
  | .array elements => .array elements
  | .object fields => .object fields
  | value => .scalar value

def Layer.map {α β : Type} (f : α → β) : Layer α → Layer β
  | .scalar value => .scalar value
  | .array elements => .array (elements.map f)
  | .object fields => .object (fields.map fun field => (field.1, f field.2))

variable {β : Type}

mutual

/-- The result for a value, from its parts and the results for them. -/
def fold (step : Layer (Json × β) → β) : Json → β
  | .array elements => step (.array (foldElements step elements))
  | .object fields => step (.object (foldFields step fields))
  | .null => step (.scalar .null)
  | .bool value => step (.scalar (.bool value))
  | .number value => step (.scalar (.number value))
  | .string value => step (.scalar (.string value))

def foldElements (step : Layer (Json × β) → β) : List Json → List (Json × β)
  | [] => []
  | element :: rest => (element, fold step element) :: foldElements step rest

def foldFields (step : Layer (Json × β) → β) : List (String × Json) → List (String × Json × β)
  | [] => []
  | (name, value) :: rest => (name, value, fold step value) :: foldFields step rest

end

theorem foldElements_eq_map (step : Layer (Json × β) → β) (elements : List Json) :
    foldElements step elements = elements.map fun element => (element, fold step element) := by
  induction elements with
  | nil => rfl
  | cons element rest ih => simp [foldElements, ih]

theorem foldFields_eq_map (step : Layer (Json × β) → β) (fields : List (String × Json)) :
    foldFields step fields = fields.map fun field => (field.1, field.2, fold step field.2) := by
  induction fields with
  | nil => rfl
  | cons field rest ih => obtain ⟨name, value⟩ := field; simp [foldFields, ih]

/-- A fold looks at one level of the value and folds the parts below it. -/
theorem fold_eq (step : Layer (Json × β) → β) (value : Json) :
    fold step value = step (value.layer.map fun part => (part, fold step part)) := by
  cases value <;> simp [fold, layer, Layer.map, foldElements_eq_map, foldFields_eq_map]

end Workflow.Json
