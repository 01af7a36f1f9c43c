import Workflow.Json.Record

/-! The fields of a record in any order. A document is written in the order of its definition, and a value
that stands for it may hold its fields in another order, such as the ascending one. Whoever looks up its
fields by name reads the same. -/
namespace Workflow

section lookup

variable {α β : Type}

theorem lookup_map_snd (f : α → β) (fields : List (String × α)) (name : String) :
    (fields.map fun field => (field.1, f field.2)).lookup name = (fields.lookup name).map f := by
  induction fields with
  | nil => rfl
  | cons field rest ih =>
    rw [List.map_cons, KeyMap.lookup_cons_eq, KeyMap.lookup_cons_eq, ih]
    split <;> rfl

theorem lookup_eq_none_of_not_mem {fields : List (String × α)} {name : String}
    (absent : name ∉ fields.map (·.1)) : fields.lookup name = none := by
  refine List.lookup_eq_none_iff.2 fun field mem => ?_
  have ne : name ≠ field.1 := fun eq => absent (eq ▸ List.mem_map_of_mem mem)
  exact bne_iff_ne.2 ne

theorem KeyMap.get?_foldl_insert {fields : List (String × α)} (distinct : (fields.map (·.1)).Nodup)
    (map : KeyMap α) (name : String) :
    (fields.foldl (fun map field => map.insert field.1 field.2) map).get? name =
      (fields.lookup name).or (map.get? name) := by
  induction fields generalizing map with
  | nil => rfl
  | cons field rest ih =>
    obtain ⟨fresh, distinct⟩ := List.nodup_cons.1 distinct
    rw [List.foldl_cons, ih distinct, get?_insert, lookup_cons_eq]
    split
    case isTrue same =>
      -- The last field of a name is kept, so it matters that no later one has this name.
      subst same
      have absent : rest.lookup field.1 = none := lookup_eq_none_of_not_mem fresh
      rw [absent, Option.none_or, Option.some_or]
    case isFalse => rfl

theorem KeyMap.lookup_ofList {fields : List (String × α)} (distinct : (fields.map (·.1)).Nodup)
    (name : String) : (ofList fields).toList.lookup name = fields.lookup name := by
  have found : (ofList fields).get? name = (fields.lookup name).or ((∅ : KeyMap α).get? name) :=
    get?_foldl_insert distinct ∅ name
  rwa [get?_empty, Option.or_none] at found

end lookup

namespace Json

/-- An order for the fields of objects, in which a name finds the field it finds elsewhere. -/
structure Arrangement where
  sort : List (String × Json) → List (String × Json)
  lookup_sort {fields : List (String × Json)} : (fields.map (·.1)).Nodup →
    ∀ name, (sort fields).lookup name = fields.lookup name

namespace Arrangement

/-- The fields stay as they are. -/
def asWritten : Arrangement where
  sort fields := fields
  lookup_sort _ _ := rfl

def ascending : Arrangement where
  sort fields := (KeyMap.ofList fields).toList
  lookup_sort distinct name := KeyMap.lookup_ofList distinct name

variable (order : Arrangement)

/-- The value with the fields of all objects in it in this order. -/
def arrange : Json → Json :=
  fold fun
    | .scalar value => value
    | .array parts => .array (parts.map Prod.snd)
    | .object parts => .object (order.sort (parts.map fun field => (field.1, field.2.2)))

@[simp] theorem arrange_null : order.arrange .null = .null := rfl

@[simp] theorem arrange_bool (value : Bool) : order.arrange (.bool value) = .bool value := rfl

@[simp] theorem arrange_number (value : Number) : order.arrange (.number value) = .number value := rfl

@[simp] theorem arrange_string (text : String) : order.arrange (.string text) = .string text := rfl

@[simp] theorem arrange_array (elements : List Json) :
    order.arrange (.array elements) = .array (elements.map order.arrange) := by
  rw [arrange, fold_eq]
  simp only [layer, Layer.map, List.map_map]
  rfl

theorem arrange_object (fields : List (String × Json)) :
    order.arrange (.object fields) =
      .object (order.sort (fields.map fun field => (field.1, order.arrange field.2))) := by
  rw [arrange, fold_eq]
  simp only [layer, Layer.map, List.map_map]
  rfl

theorem arrange_ne_null {value : Json} (solid : value ≠ .null) : order.arrange value ≠ .null := by
  cases value with
  | null => exact absurd rfl solid
  | bool | number | string => exact solid
  | array elements =>
    rw [arrange_array]
    exact Json.noConfusion
  | object fields =>
    rw [arrange_object]
    exact Json.noConfusion

/-- The fields that were written are found again. -/
theorem exists_fields (written : List (String × Json)) (distinct : (written.map (·.1)).Nodup) :
    ∃ fields, order.arrange (.object written) = .object fields ∧
      ∀ name, fields.lookup name = (written.lookup name).map order.arrange := by
  refine ⟨_, order.arrange_object written, fun name => ?_⟩
  have names : (written.map fun field => (field.1, order.arrange field.2)).map (·.1) =
      written.map (·.1) := by
    rw [List.map_map]
    rfl
  rw [order.lookup_sort (names ▸ distinct), lookup_map_snd]

/-- The same for a fold: each field comes with the result for it. -/
theorem exists_parts {β : Type} (step : Layer (Json × β) → β) (written : List (String × Json))
    (distinct : (written.map (·.1)).Nodup) :
    ∃ parts, fold step (order.arrange (.object written)) = step (.object parts) ∧
      ∀ name, parts.lookup name =
        (written.lookup name).map fun value => (order.arrange value, fold step (order.arrange value)) := by
  obtain ⟨fields, arranged, found⟩ := order.exists_fields written distinct
  refine ⟨fields.map fun field => (field.1, field.2, fold step field.2), ?_, fun name => ?_⟩
  · rw [arranged, fold_eq]
    rfl
  · rw [lookup_map_snd fun value => (value, fold step value), found, Option.map_map]
    rfl

/-- The values have their fields in this order already. -/
def Keeps (values : List Json) : Prop :=
  ∀ value ∈ values, order.arrange value = value

@[simp] theorem keeps_append {values others : List Json} :
    order.Keeps (values ++ others) ↔ order.Keeps values ∧ order.Keeps others :=
  List.forall_mem_append

mutual

theorem arrange_asWritten : ∀ value : Json, asWritten.arrange value = value
  | .null | .bool _ | .number _ | .string _ => rfl
  | .array elements => by rw [arrange_array, map_asWritten elements]
  | .object fields => by
    rw [arrange_object, map_fields_asWritten fields]
    rfl

theorem map_asWritten : ∀ elements : List Json, elements.map asWritten.arrange = elements
  | [] => rfl
  | element :: rest => by rw [List.map_cons, arrange_asWritten element, map_asWritten rest]

theorem map_fields_asWritten : ∀ fields : List (String × Json),
    fields.map (fun field => (field.1, asWritten.arrange field.2)) = fields
  | [] => rfl
  | (name, value) :: rest => by
    rw [List.map_cons, arrange_asWritten value, map_fields_asWritten rest]

end

end Arrangement

end Json

end Workflow
