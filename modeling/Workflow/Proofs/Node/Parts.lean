import Workflow.Node.Document
import Workflow.Proofs.Number.Conversion
import Workflow.Proofs.Predicate.Document

/-! What a step holds besides the steps below it, written and read back. -/
namespace Workflow

open Json (Arrangement Context Layer required optional withDefault)

theorem KeySet.ofList_toList (keys : KeySet) : ofList keys.toList = keys := by
  ext key
  rw [mem_ofList, mem_def]

variable (order : Arrangement)

section names

@[simp] theorem FieldType.ofName?_name (type : FieldType) : ofName? type.name = some type := by
  cases type <;> rfl

theorem FieldType.ofJson?_name (context : Context) (type : FieldType) :
    ofJson? context (.string type.name) = some type :=
  ofName?_name type

@[simp] theorem Visibility.ofName?_name (visibility : Visibility) :
    ofName? visibility.name = some visibility := by
  cases visibility <;> rfl

theorem Visibility.ofJson?_name (context : Context) (visibility : Visibility) :
    ofJson? context visibility.toJson = some visibility :=
  ofName?_name visibility

end names

section schema

theorem SchemaField.ofJson?_arrange (context : Context) (field : SchemaField) :
    ofJson? context (order.arrange field.toJson) = some field := by
  obtain ⟨fields, arranged, found⟩ := order.exists_fields
    [("name", .string field.name), ("type", .string field.type.name),
      ("required", .bool field.required)] (by simp)
  have name : Json.required fields "name" Json.string? = some field.name :=
    Json.required_eq (found "name") rfl
  have type : Json.required fields "type" (FieldType.ofJson? context) = some field.type :=
    Json.required_eq (found "type") (FieldType.ofJson?_name context field.type)
  have needed : withDefault fields "required" true Json.bool? = some field.required :=
    Json.withDefault_eq (found "required") rfl
  rw [toJson, arranged]
  simp [ofJson?, Json.layer, Layer.record?, name, type, needed]

theorem Schema.ofJson?_arrange (context : Context) (schema : Schema) :
    ofJson? context (order.arrange schema.toJson) = some schema := by
  obtain ⟨fields, arranged, found⟩ := order.exists_fields
    [("name", .string schema.name), ("fields", .array (schema.fields.map (·.toJson)))] (by simp)
  have name : required fields "name" Json.string? = some schema.name :=
    Json.required_eq (found "name") rfl
  have elements : ((schema.fields.map (·.toJson)).map order.arrange).mapM
      (SchemaField.ofJson? context) = some schema.fields := by
    rw [List.map_map]
    exact mapM_map_eq_some fun field _ => SchemaField.ofJson?_arrange order context field
  have held : fields.lookup "fields" =
      some (.array ((schema.fields.map (·.toJson)).map order.arrange)) := by
    rw [← order.arrange_array]
    exact found "fields"
  have listed : withDefault fields "fields" [] (fun value => value.array?.bind fun elements =>
      elements.mapM (SchemaField.ofJson? context)) = some schema.fields :=
    Json.withDefault_eq held elements
  rw [toJson, arranged]
  simp [ofJson?, Json.layer, Layer.record?, name, listed]

end schema

section spec

/-- The number is absent, or finite. -/
def FiniteSetting (setting : Option Number.Single) : Prop :=
  ∀ x, setting = some x → ∃ value, x = .finite value

namespace Generation

/-- The numbers of the settings are finite where they are given. -/
structure Finite (generation : Generation) : Prop where
  temperature : FiniteSetting generation.temperature
  topP : FiniteSetting generation.topP

/-- A finite number of single precision passes through the double of the same value. -/
theorem nullable_single?_toJson {setting : Option Number.Single} (finite : FiniteSetting setting) :
    ∀ x, setting = some x →
      Json.nullable Json.single? (order.arrange x.toJson) = some (some x) := by
  intro x given
  obtain ⟨value, same⟩ := finite x given
  obtain ⟨wide, forth, back⟩ := Number.Single.ofDouble_toDouble? value
  have forth : x.toDouble? = some wide := same ▸ forth
  have back : Number.Single.ofDouble wide = x := same ▸ back
  rw [Number.Single.toJson, forth]
  change some (some (Number.Single.ofDouble wide)) = some (some x)
  rw [back]

theorem ofJson?_arrange {generation : Generation} (finite : generation.Finite) :
    ofJson? (order.arrange (generation.toJson Number.Single.toJson)) = some generation := by
  obtain ⟨fields, arranged, found⟩ := order.exists_fields
    (Json.present "temperature" Number.Single.toJson generation.temperature ++
      Json.present "top_p" Number.Single.toJson generation.topP ++
      Json.present "max_output_tokens" (fun n => Json.ofNat n.toNat) generation.maxOutputTokens) (by
    rw [List.map_append, List.map_append]
    exact List.Nodup.sublist (((Json.names_present ..).append (Json.names_present ..)).append
      (Json.names_present ..)) (by decide))
  simp only [List.lookup_append, Json.lookup_present] at found
  have temperature : optional fields "temperature" Json.single? = some generation.temperature :=
    Json.optional_eq order Number.Single.toJson (by simp [found])
      (nullable_single?_toJson order finite.temperature)
  have topP : optional fields "top_p" Json.single? = some generation.topP :=
    Json.optional_eq order Number.Single.toJson (by simp [found])
      (nullable_single?_toJson order finite.topP)
  have tokens : optional fields "max_output_tokens" Json.uint32? = some generation.maxOutputTokens :=
    Json.optional_eq order (fun n => Json.ofNat n.toNat) (by simp [found]) fun n _ => by
      rw [Json.arrange_ofNat]
      exact Json.nullable_eq Json.noConfusion (Json.uint32?_ofNat n)
  rw [toJson, arranged]
  simp [ofJson?, Json.layer, Layer.record?, temperature, topP, tokens]

end Generation

namespace AgentSpec

/-- The numbers of its settings are finite where they are given. -/
def FiniteSettings (spec : AgentSpec) : Prop :=
  ∀ generation, spec.generation = some generation → generation.Finite

theorem names_fields (single : Number.Single → Json) (spec : AgentSpec) :
    ((spec.fields single).map (·.1)).Sublist ["model", "instruction", "description", "tools",
      "output_key", "output_schema", "generation", "include_history"] := by
  simp only [fields, List.map_append]
  exact (((((((Json.names_present ..).append (Json.names_present ..)).append
    (Json.names_present ..)).append (Json.names_presentKeys ..)).append
    (Json.names_present ..)).append (Json.names_present ..)).append
    (Json.names_present ..)).append (List.Sublist.refl _)

theorem ofLayer?_object {spec : AgentSpec} (finite : spec.FiniteSettings)
    {fields : List (String × Json)} (found : ∀ name, name ≠ "type" → fields.lookup name =
      ((spec.fields Number.Single.toJson).lookup name).map order.arrange) :
    ofLayer? (.object fields) = some spec := by
  simp only [AgentSpec.fields, List.lookup_append, Json.lookup_present, Json.lookup_presentKeys,
    KeyMap.lookup_cons_eq] at found
  have model : optional fields "model" Json.string? = some spec.model :=
    Json.optional_string_eq order (by simp [found])
  have instruction : optional fields "instruction" Json.string? = some spec.instruction :=
    Json.optional_string_eq order (by simp [found])
  have description : optional fields "description" Json.string? = some spec.description :=
    Json.optional_string_eq order (by simp [found])
  have tools : withDefault fields "tools" [] Json.strings? = some spec.tools :=
    Json.withDefault_keys_eq order (by simp [found]) Eq.symm (Json.strings?_ofStrings spec.tools)
  have outputKey : optional fields "output_key" Json.string? = some spec.outputKey :=
    Json.optional_string_eq order (by simp [found])
  have outputSchema : optional fields "output_schema" (Schema.ofJson? .inner) =
      some spec.outputSchema :=
    Json.optional_eq order Schema.toJson (by simp [found]) fun schema _ =>
      Json.nullable_eq (order.arrange_ne_null Json.noConfusion) (Schema.ofJson?_arrange order .inner schema)
  have generation : optional fields "generation" Generation.ofJson? = some spec.generation :=
    Json.optional_eq order (Generation.toJson Number.Single.toJson) (by simp [found])
      fun generation given =>
        Json.nullable_eq (order.arrange_ne_null Json.noConfusion)
          (Generation.ofJson?_arrange order (finite generation given))
  have written : fields.lookup "include_history" = some (.bool spec.includeHistory) := by
    simp [found]
  have history : withDefault fields "include_history" true Json.bool? = some spec.includeHistory :=
    Json.withDefault_eq written rfl
  simp [ofLayer?, Layer.record?, model, instruction, description, tools, outputKey, outputSchema,
    generation, history]

end AgentSpec

end spec

section plumbing

namespace StateOp

/-- The JSON values that the operation writes. -/
def values : StateOp → List Json
  | .set _ value | .default _ value => [value]
  | .copy .. | .rename .. | .drop _ | .merge .. => []

/-- The operations that put a value under a key are read alike. -/
theorem exists_assignment (tag key : String) (known : tag ∈ tags) {value : Json}
    (same : order.arrange value = value) :
    ∃ fields, order.arrange (.object
        [("op", .string tag), ("key", .string key), ("value", value)]) = .object fields ∧
      (∀ context, (Layer.object fields).tagged? id context "op" tags = some (tag, .object fields)) ∧
      required fields "key" Json.string? = some key ∧ fields.lookup "value" = some value := by
  obtain ⟨fields, arranged, tagged, found⟩ := Json.exists_tagged order "op" tag tags
    [("key", .string key), ("value", value)] (by simp) known
  exact ⟨fields, arranged, tagged, Json.required_eq (found "key") rfl,
    (found "value").trans (congrArg some same)⟩

/-- The operations that take a value from one key to another are read alike. -/
theorem exists_transport (tag source target : String) (known : tag ∈ tags) :
    ∃ fields, order.arrange (.object
        [("op", .string tag), ("from", .string source), ("to", .string target)]) = .object fields ∧
      (∀ context, (Layer.object fields).tagged? id context "op" tags = some (tag, .object fields)) ∧
      required fields "from" Json.string? = some source ∧
      required fields "to" Json.string? = some target := by
  obtain ⟨fields, arranged, tagged, found⟩ := Json.exists_tagged order "op" tag tags
    [("from", .string source), ("to", .string target)] (by simp) known
  exact ⟨fields, arranged, tagged, Json.required_eq (found "from") rfl,
    Json.required_eq (found "to") rfl⟩

theorem ofJson?_arrange (context : Context) {op : StateOp} (kept : order.Keeps op.values) :
    ofJson? context (order.arrange op.toJson) = some op := by
  cases op with
  | set key value =>
    have same : order.arrange value = value := kept value (List.mem_singleton_self value)
    obtain ⟨fields, arranged, tagged, keyRead, valueRead⟩ :=
      exists_assignment order "set" key (by decide) same
    rw [toJson, arranged]
    simp [ofJson?, Json.layer, tagged, Layer.record?, keyRead, valueRead]
  | default key value =>
    have same : order.arrange value = value := kept value (List.mem_singleton_self value)
    obtain ⟨fields, arranged, tagged, keyRead, valueRead⟩ :=
      exists_assignment order "default" key (by decide) same
    rw [toJson, arranged]
    simp [ofJson?, Json.layer, tagged, Layer.record?, keyRead, valueRead]
  | copy source target =>
    obtain ⟨fields, arranged, tagged, sourceRead, targetRead⟩ :=
      exists_transport order "copy" source target (by decide)
    rw [toJson, arranged]
    simp [ofJson?, Json.layer, tagged, Layer.record?, sourceRead, targetRead]
  | rename source target =>
    obtain ⟨fields, arranged, tagged, sourceRead, targetRead⟩ :=
      exists_transport order "rename" source target (by decide)
    rw [toJson, arranged]
    simp [ofJson?, Json.layer, tagged, Layer.record?, sourceRead, targetRead]
  | drop key =>
    obtain ⟨fields, arranged, tagged, found⟩ := Json.exists_tagged order "op" "drop" tags
      [("key", .string key)] (by simp) (by decide)
    have keyRead : required fields "key" Json.string? = some key :=
      Json.required_eq (found "key") rfl
    rw [toJson, arranged]
    simp [ofJson?, Json.layer, tagged, Layer.record?, keyRead]
  | merge keys target separator =>
    obtain ⟨fields, arranged, tagged, found⟩ := Json.exists_tagged order "op" "merge" tags
      [("keys", Json.ofStrings keys), ("into", .string target), ("separator", .string separator)]
      (by simp) (by decide)
    have keysRead : required fields "keys" Json.strings? = some keys :=
      Json.required_eq (found "keys") (by simp)
    have targetRead : required fields "into" Json.string? = some target :=
      Json.required_eq (found "into") rfl
    have separatorRead : withDefault fields "separator" defaultSeparator Json.string? =
        some separator := Json.withDefault_eq (found "separator") rfl
    rw [toJson, arranged]
    simp [ofJson?, Json.layer, tagged, Layer.record?, keysRead, targetRead, separatorRead]

end StateOp

namespace TapAction

/-- The JSON values that the condition of a tap compares with. -/
def values : TapAction → List Json
  | .log _ => []
  | .checkpoint exit => exit.values

theorem ofJson?_arrange {action : TapAction} (kept : order.Keeps action.values) :
    ofJson? (order.arrange action.toJson) = some action := by
  cases action with
  | log keys =>
    obtain ⟨fields, arranged, tagged, found⟩ := Json.exists_tagged order "action" "log"
      ["log", "checkpoint"] [("keys", .ofStrings keys)] (by simp) (by decide)
    have keysRead : required fields "keys" Json.strings? = some keys :=
      Json.required_eq (found "keys") (by simp)
    rw [toJson, arranged]
    simp [ofJson?, Json.layer, tagged, Layer.record?, keysRead]
  | checkpoint exit =>
    obtain ⟨fields, arranged, tagged, found⟩ := Json.exists_tagged order "action" "checkpoint"
      ["log", "checkpoint"] [("until", exit.toJson)] (by simp) (by decide)
    have exitRead : required fields "until" (Predicate.ofJson? .inner) = some exit :=
      Json.required_eq (found "until") (Predicate.ofJson?_arrange order kept .inner)
    rw [toJson, arranged]
    simp [ofJson?, Json.layer, tagged, Layer.record?, exitRead]

end TapAction

end plumbing

namespace Contract

theorem names_fields (contract : Contract) :
    (contract.fields.map (·.1)).Sublist ["reads", "writes", "produces", "consumes", "visibility"] := by
  simp only [fields, List.map_append]
  exact ((((Json.names_presentKeys ..).append (Json.names_presentKeys ..)).append
    (Json.names_present ..)).append (Json.names_present ..)).append (Json.names_present ..)

theorem lookup_kind (contract : Contract) : contract.fields.lookup "kind" = none :=
  lookup_eq_none_of_not_mem fun mem =>
    absurd (contract.names_fields.subset mem) (by decide)

theorem ofFields?_eq {contract : Contract} {fields : List (String × Json)}
    (found : ∀ name, name ≠ "name" → name ≠ "kind" →
      fields.lookup name = (contract.fields.lookup name).map order.arrange) :
    ofFields? fields = some contract := by
  simp only [Contract.fields, List.lookup_append, Json.lookup_present, Json.lookup_presentKeys]
    at found
  have keysRead (keys : KeySet) : keys? (.ofStrings keys.toList) = some keys := by
    rw [keys?, Json.strings?_ofStrings, Option.map_some, KeySet.ofList_toList]
  have none (keys : KeySet) (empty : keys.toList = []) : ∅ = keys := by
    rw [← KeySet.ofList_toList keys, empty]
    rfl
  have schemaRead (schema : Schema) : Json.nullable (Schema.ofJson? .inner)
      (order.arrange schema.toJson) = some (some schema) :=
    Json.nullable_eq (order.arrange_ne_null Json.noConfusion)
      (Schema.ofJson?_arrange order .inner schema)
  have reads : withDefault fields "reads" ∅ keys? = some contract.reads :=
    Json.withDefault_keys_eq order (by simp [found]) (none contract.reads) (keysRead contract.reads)
  have writes : withDefault fields "writes" ∅ keys? = some contract.writes :=
    Json.withDefault_keys_eq order (by simp [found]) (none contract.writes)
      (keysRead contract.writes)
  have produces : optional fields "produces" (Schema.ofJson? .inner) = some contract.produces :=
    Json.optional_eq order Schema.toJson (by simp [found]) fun schema _ => schemaRead schema
  have consumes : optional fields "consumes" (Schema.ofJson? .inner) = some contract.consumes :=
    Json.optional_eq order Schema.toJson (by simp [found]) fun schema _ => schemaRead schema
  have visibility : optional fields "visibility" (Visibility.ofJson? .inner) =
      some contract.visibility :=
    Json.optional_eq order Visibility.toJson (by simp [found]) fun visibility _ =>
      Json.nullable_eq (order.arrange_ne_null Json.noConfusion)
        (Visibility.ofJson?_name .inner visibility)
  simp [ofFields?, reads, writes, produces, consumes, visibility]

end Contract

end Workflow
