import Workflow.Predicate.Document
import Workflow.Proofs.Json.Record

/-! A predicate is read back from its document, in whatever order that document holds its fields. -/
namespace Workflow.Predicate

open Json (Arrangement Context Layer fold)

mutual

/-- The JSON values that the predicate compares with. -/
def values : Predicate → List Json
  | .equals _ value => [value]
  | .not inner => inner.values
  | .all of => listValues of
  | .any of => listValues of
  | .truthy _ | .present _ | .contains .. => []

def listValues : List Predicate → List Json
  | [] => []
  | first :: rest => first.values ++ listValues rest

end

variable (order : Arrangement)

/-- A document with a tag is read as the alternative of that name, from the fields that were written. -/
theorem exists_parts (tag : String) (content : List (String × Json))
    (distinct : ("type" :: content.map (·.1)).Nodup) (known : tag ∈ tags) :
    ∃ parts, (∀ context,
        ofJson? context (order.arrange (.object (("type", .string tag) :: content))) =
          Reading.ofTagged tag (.object parts)) ∧
      ∀ name, parts.lookup name = ((("type", .string tag) :: content).lookup name).map fun value =>
        (order.arrange value, fold Reading.ofLayer (order.arrange value)) := by
  obtain ⟨parts, folded, tagged, found⟩ :=
    Json.exists_tagged_parts order Reading.ofLayer "type" tag tags content distinct known
  refine ⟨parts, fun context => ?_, found⟩
  rw [ofJson?, folded]
  simp only [Reading.ofLayer, tagged, Option.bind_eq_bind, Option.bind_some]

/-- A list of predicates is read if each of its elements is. -/
theorem many_arrange {predicates : List Predicate}
    (back : ∀ predicate ∈ predicates, ofJson? .inner (order.arrange predicate.toJson) = some predicate) :
    (fold Reading.ofLayer (order.arrange (.array (listToJson predicates)))).many = some predicates := by
  have written : listToJson predicates = predicates.map toJson := by
    induction predicates with
    | nil => rfl
    | cons first rest ih =>
      rw [listToJson, List.map_cons, ih (List.forall_mem_cons.1 back).2]
  obtain ⟨parts, folded, read⟩ : ∃ parts,
      fold Reading.ofLayer (order.arrange (.array (predicates.map toJson))) =
        Reading.ofLayer (.array parts) ∧
      parts.mapM (fun part => part.2.one .inner) = some predicates :=
    Json.exists_elements order Reading.ofLayer back
  rw [written, folded]
  exact read

/-- Both alternatives with a list of predicates are read from that list. -/
theorem exists_parts_of (tag : String) (known : tag ∈ tags) {predicates : List Predicate}
    (back : ∀ predicate ∈ predicates, ofJson? .inner (order.arrange predicate.toJson) = some predicate) :
    ∃ parts, (∀ context, ofJson? context (order.arrange (.object
        [("type", .string tag), ("of", .array (listToJson predicates))])) =
          Reading.ofTagged tag (.object parts)) ∧
      Json.required parts "of" (fun part => part.2.many) = some predicates := by
  obtain ⟨parts, read, found⟩ := exists_parts order tag [("of", .array (listToJson predicates))]
    (by simp) known
  exact ⟨parts, read, Json.required_eq (found "of") (many_arrange order back)⟩

mutual

theorem ofJson?_arrange : ∀ {predicate : Predicate}, order.Keeps predicate.values →
    ∀ context, ofJson? context (order.arrange predicate.toJson) = some predicate
  | .truthy key, _, context => by
    obtain ⟨parts, read, found⟩ := exists_parts order "truthy"
      [("key", .string key)] (by simp) (by decide)
    have keyRead : Json.required parts "key" (fun part => part.1.string?) = some key :=
      Json.required_eq (found "key") rfl
    rw [toJson, read]
    simp [Reading.ofTagged, Layer.record?, keyRead]
  | .present key, _, context => by
    obtain ⟨parts, read, found⟩ := exists_parts order "exists"
      [("key", .string key)] (by simp) (by decide)
    have keyRead : Json.required parts "key" (fun part => part.1.string?) = some key :=
      Json.required_eq (found "key") rfl
    rw [toJson, read]
    simp [Reading.ofTagged, Layer.record?, keyRead]
  | .equals key value, kept, context => by
    obtain ⟨parts, read, found⟩ := exists_parts order "equals"
      [("key", .string key), ("value", value)] (by simp) (by decide)
    have keyRead : Json.required parts "key" (fun part => part.1.string?) = some key :=
      Json.required_eq (found "key") rfl
    have same : order.arrange value = value := kept value (List.mem_singleton_self value)
    rw [toJson, read]
    simp [Reading.ofTagged, Layer.record?, keyRead, found, KeyMap.lookup_cons_eq, same]
  | .contains key needle, _, context => by
    obtain ⟨parts, read, found⟩ := exists_parts order "contains"
      [("key", .string key), ("needle", .string needle)] (by simp) (by decide)
    have keyRead : Json.required parts "key" (fun part => part.1.string?) = some key :=
      Json.required_eq (found "key") rfl
    have needleRead : Json.required parts "needle" (fun part => part.1.string?) = some needle :=
      Json.required_eq (found "needle") rfl
    rw [toJson, read]
    simp [Reading.ofTagged, Layer.record?, keyRead, needleRead]
  | .not inner, kept, context => by
    obtain ⟨parts, read, found⟩ := exists_parts order "not"
      [("inner", inner.toJson)] (by simp) (by decide)
    have below : order.Keeps inner.values := kept
    have back : ofJson? .inner (order.arrange inner.toJson) = some inner :=
      ofJson?_arrange below .inner
    have innerRead : Json.required parts "inner" (fun part => part.2.one .inner) = some inner :=
      Json.required_eq (found "inner") back
    rw [toJson, read]
    simp [Reading.ofTagged, Layer.record?, innerRead]
  | .all of, kept, context => by
    obtain ⟨parts, read, ofRead⟩ := exists_parts_of order "all" (by decide)
      (forall_ofJson?_arrange kept)
    rw [toJson, read]
    simp [Reading.ofTagged, Layer.record?, ofRead]
  | .any of, kept, context => by
    obtain ⟨parts, read, ofRead⟩ := exists_parts_of order "any" (by decide)
      (forall_ofJson?_arrange kept)
    rw [toJson, read]
    simp [Reading.ofTagged, Layer.record?, ofRead]

theorem forall_ofJson?_arrange : ∀ {predicates : List Predicate},
    order.Keeps (listValues predicates) → ∀ predicate ∈ predicates,
      ofJson? .inner (order.arrange predicate.toJson) = some predicate
  | [], _ => fun _ mem => absurd mem List.not_mem_nil
  | first :: rest, kept => by
    obtain ⟨here, below⟩ := order.keeps_append.1 kept
    exact List.forall_mem_cons.2 ⟨ofJson?_arrange here .inner, forall_ofJson?_arrange below⟩

end

end Workflow.Predicate
