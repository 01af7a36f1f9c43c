import Workflow.Proofs.Json.Arrangement

/-! The fields of a record as they are written and read: what is left away when there is nothing to
write is what is read when there is nothing, and the parts come back. -/
namespace Workflow

theorem mapM_map_eq_some {α β : Type} {write : α → β} {read : β → Option α} {items : List α}
    (back : ∀ item ∈ items, read (write item) = some item) :
    (items.map write).mapM read = some items := by
  induction items with
  | nil => rfl
  | cons item rest ih =>
    obtain ⟨first, others⟩ := List.forall_mem_cons.1 back
    rw [List.map_cons, List.mapM_cons, first, ih others]
    rfl

namespace Json

section written

variable {α : Type} (name key : String)

@[simp] theorem lookup_present (write : α → Json) (value : Option α) :
    (present name write value).lookup key = if key = name then value.map write else none := by
  cases value with
  | none => simp [present]
  | some value => simp [present, KeyMap.lookup_cons_eq]

@[simp] theorem lookup_presentKeys (keys : List String) :
    (presentKeys name keys).lookup key =
      if key = name ∧ keys ≠ [] then some (ofStrings keys) else none := by
  cases keys with
  | nil => simp [presentKeys]
  | cons first rest => simp [presentKeys, KeyMap.lookup_cons_eq]

theorem names_present (write : α → Json) (value : Option α) :
    ((present name write value).map (·.1)).Sublist [name] := by
  cases value with
  | none => exact List.nil_sublist _
  | some value => exact List.Sublist.refl _

theorem names_presentKeys (keys : List String) :
    ((presentKeys name keys).map (·.1)).Sublist [name] := by
  cases keys with
  | nil => exact List.nil_sublist _
  | cons first rest => exact List.Sublist.refl _

end written

section read

variable {α β : Type} {fields : List (String × α)} {name : String} {read : α → Option β}

theorem required_eq {found : α} {value : β} (held : fields.lookup name = some found)
    (back : read found = some value) : required fields name read = some value := by
  rw [required, held, Option.bind_some, back]

theorem withDefault_eq {found : α} {value fallback : β} (held : fields.lookup name = some found)
    (back : read found = some value) : withDefault fields name fallback read = some value := by
  rw [withDefault, held]
  exact back

end read

/-- The tag of an object is the name of an alternative. -/
theorem tagged?_object {α : Type} {raw : α → Json} {context : Context} {tag name : String}
    {names : List String} {fields : List (String × α)} {part : α}
    (held : fields.lookup tag = some part) (named : raw part = .string name) (known : name ∈ names) :
    (Layer.object fields).tagged? raw context tag names = some (name, .object fields) := by
  have read : Layer.tagged?.name? context names (.string name) = some name := if_pos known
  rw [Layer.tagged?, held]
  change (do return (← Layer.tagged?.name? context names (raw part), Layer.object fields)) = _
  rw [named, read]
  rfl

/-- A document with its tag in front, in any order, is read as the alternative of that name from the
fields that were written. -/
theorem exists_tagged (order : Arrangement) (label tag : String) (names : List String)
    (content : List (String × Json)) (distinct : (label :: content.map (·.1)).Nodup)
    (known : tag ∈ names) :
    ∃ fields, order.arrange (.object ((label, .string tag) :: content)) = .object fields ∧
      (∀ context, (Layer.object fields).tagged? id context label names =
        some (tag, .object fields)) ∧
      ∀ name, fields.lookup name =
        (((label, .string tag) :: content).lookup name).map order.arrange := by
  obtain ⟨fields, arranged, found⟩ := order.exists_fields ((label, .string tag) :: content) distinct
  have held : fields.lookup label = some (.string tag) := by
    rw [found, KeyMap.lookup_cons_eq, if_pos rfl]
    rfl
  exact ⟨fields, arranged, fun _ => tagged?_object held rfl known, found⟩

/-- The same for a fold: each field comes with the result for it. -/
theorem exists_tagged_parts {β : Type} (order : Arrangement) (step : Layer (Json × β) → β)
    (label tag : String) (names : List String) (content : List (String × Json))
    (distinct : (label :: content.map (·.1)).Nodup) (known : tag ∈ names) :
    ∃ parts, fold step (order.arrange (.object ((label, .string tag) :: content))) =
        step (.object parts) ∧
      (∀ context, (Layer.object parts).tagged? Prod.fst context label names =
        some (tag, .object parts)) ∧
      ∀ name, parts.lookup name = (((label, .string tag) :: content).lookup name).map fun value =>
        (order.arrange value, fold step (order.arrange value)) := by
  obtain ⟨parts, folded, found⟩ := order.exists_parts step ((label, .string tag) :: content) distinct
  have held : parts.lookup label = some (.string tag, fold step (.string tag)) := by
    rw [found, KeyMap.lookup_cons_eq, if_pos rfl]
    rfl
  exact ⟨parts, folded, fun _ => tagged?_object held rfl known, found⟩

/-- An array of documents is read element by element. -/
theorem exists_elements {α β : Type} (order : Arrangement) (step : Layer (Json × β) → β)
    {write : α → Json} {read : Json × β → Option α} {items : List α}
    (back : ∀ item ∈ items,
      read (order.arrange (write item), fold step (order.arrange (write item))) = some item) :
    ∃ parts, fold step (order.arrange (.array (items.map write))) = step (.array parts) ∧
      parts.mapM read = some items := by
  refine ⟨_, ?_, mapM_map_eq_some back⟩
  rw [Arrangement.arrange_array, fold_eq]
  simp only [layer, Layer.map, List.map_map]
  rfl

section nullable

variable {β : Type} {read : Json → Option β}

theorem nullable_eq {found : Json} {value : β} (solid : found ≠ .null)
    (back : read found = some value) : nullable read found = some (some value) := by
  cases found with
  | null => exact absurd rfl solid
  | _ => exact congrArg (Option.map some) back

/-- What was written if there was something to write is read, and nothing otherwise. -/
theorem optional_eq (order : Arrangement) (write : β → Json) {fields : List (String × Json)}
    {name : String} {value : Option β}
    (held : fields.lookup name = (value.map write).map order.arrange)
    (back : ∀ item, value = some item →
      nullable read (order.arrange (write item)) = some (some item)) :
    optional fields name read = some value := by
  cases value with
  | none =>
    rw [optional, withDefault, held]
    rfl
  | some item => exact withDefault_eq held (back item rfl)

theorem optional_string_eq (order : Arrangement) {fields : List (String × Json)} {name : String}
    {value : Option String}
    (held : fields.lookup name = (value.map .string).map order.arrange) :
    optional fields name string? = some value :=
  optional_eq order .string held fun _ _ => rfl

end nullable

section values

variable (order : Arrangement)

@[simp] theorem arrange_ofStrings (texts : List String) :
    order.arrange (ofStrings texts) = ofStrings texts := by
  rw [ofStrings, Arrangement.arrange_array, List.map_map]
  rfl

@[simp] theorem strings?_ofStrings (texts : List String) : strings? (ofStrings texts) = some texts :=
  mapM_map_eq_some fun _ _ => rfl

@[simp] theorem arrange_ofNat (n : Nat) : order.arrange (ofNat n) = ofNat n := rfl

@[simp] theorem natural?_ofNat (n : Nat) : natural? (ofNat n) = some n := by
  simp [natural?, ofNat, integer?]

@[simp] theorem uint32?_ofNat (n : UInt32) : uint32? (ofNat n.toNat) = some n := by
  simp [uint32?, n.toNat_lt_size]

@[simp] theorem uint64?_ofNat (n : UInt64) : uint64? (ofNat n.toNat) = some n := by
  simp [uint64?, n.toNat_lt_size]

/-- A list of keys is read, and the empty list is what stands for a list that was left away. -/
theorem withDefault_keys_eq {β : Type} {read : Json → Option β} {fields : List (String × Json)}
    {name : String} {keys : List String} {value fallback : β}
    (held : fields.lookup name =
      (if keys = [] then none else some (ofStrings keys)).map order.arrange)
    (empty : keys = [] → fallback = value) (back : read (ofStrings keys) = some value) :
    withDefault fields name fallback read = some value := by
  split at held
  case isTrue none =>
    rw [withDefault, held]
    exact congrArg some (empty none)
  case isFalse =>
    rw [Option.map_some, arrange_ofStrings] at held
    exact withDefault_eq held back

end values

end Json

end Workflow
