import Workflow.Contract.Check
import Workflow.Graph.Export
import Workflow.Inference
import Workflow.Proofs.Node.Parts
import Workflow.Proofs.Tree.Equality
import Workflow.Proofs.Tree.Occurrence

/-! A node is read back from its document. -/
namespace Workflow

open Json (Arrangement Context Layer fold)

variable (order : Arrangement)

namespace Kind

variable {α : Type}

/-- The JSON values that the step itself compares with or writes. -/
def values : Kind α → List Json
  | .loop _ _ exit => exit.toList.flatMap (·.values)
  | .transform ops => ops.flatMap (·.values)
  | .tap action => action.values
  | .gate predicate _ _ => predicate.values
  | .route _ rules _ => rules.flatMap fun rule => rule.predicate.values
  | .transfer _ condition => condition.toList.flatMap (·.values)
  | .leaf _ | .sequence _ | .parallel _ | .fallback _ | .race _ | .mapOver .. | .timeout .. |
    .capture _ => []

/-- The numbers in the settings of a leaf are finite where they are given. -/
def FiniteSettings (kind : Kind α) : Prop :=
  ∀ spec, kind = .leaf spec → spec.FiniteSettings

end Kind

namespace Node

/-- The JSON values in the predicates and operations of all steps. -/
def values (node : Node) : List Json :=
  node.steps.flatMap fun step => step.kind.values

def FiniteSettings (node : Node) : Prop :=
  ∀ step ∈ node.steps, step.kind.FiniteSettings

theorem toJson_eq (node : Node) :
    node.toJson = .object (("name", .string node.name) :: node.contract.fields ++
      [("kind", .object ((node.kind.map toJson).fields Number.Single.toJson))]) := by
  rw [toJson, document, Tree.fold_eq]
  rfl

theorem toJson_ne_null (node : Node) : node.toJson ≠ .null := by
  rw [toJson_eq]
  exact Json.noConfusion

section kinds

/-- The document of a kind is read as the kind of that tag, from the fields that were written. -/
theorem exists_parts (tag : String) (content : List (String × Json))
    (distinct : ("type" :: content.map (·.1)).Nodup) (known : tag ∈ Kind.tags) :
    ∃ parts, (∀ context, (fold Reading.ofLayer
        (order.arrange (.object (("type", .string tag) :: content)))).kind context =
          Reading.kindOfTagged tag (.object parts)) ∧
      ∀ name, parts.lookup name = ((("type", .string tag) :: content).lookup name).map fun value =>
        (order.arrange value, fold Reading.ofLayer (order.arrange value)) := by
  obtain ⟨parts, folded, tagged, found⟩ :=
    Json.exists_tagged_parts order Reading.ofLayer "type" tag Kind.tags content distinct known
  refine ⟨parts, fun context => ?_, found⟩
  rw [folded]
  simp only [Reading.ofLayer, tagged, Option.bind_eq_bind, Option.bind_some]

/-- The steps of a group are read if each of them is. -/
theorem children_object {parts : List (String × Part)} {children : List Node}
    (found : parts.lookup "children" = some (order.arrange (.array (children.map toJson)),
      fold Reading.ofLayer (order.arrange (.array (children.map toJson)))))
    (back : ∀ child ∈ children, ofJson? .inner (order.arrange child.toJson) = some child) :
    Reading.children (.object parts) = some children := by
  obtain ⟨parts, folded, read⟩ : ∃ parts,
      fold Reading.ofLayer (order.arrange (.array (children.map toJson))) =
        Reading.ofLayer (.array parts) ∧
      parts.mapM (fun part => part.2.one .inner) = some children :=
    Json.exists_elements order Reading.ofLayer back
  refine Json.required_eq found ?_
  rw [folded]
  exact read

/-- All kinds of groups are read from the list of their steps. -/
theorem exists_parts_children (tag : String) (known : tag ∈ Kind.tags) {children : List Node}
    (back : ∀ child ∈ children, ofJson? .inner (order.arrange child.toJson) = some child) :
    ∃ parts, (∀ context, (fold Reading.ofLayer (order.arrange (.object
        [("type", .string tag), ("children", .array (children.map toJson))]))).kind context =
          Reading.kindOfTagged tag (.object parts)) ∧
      Reading.children (.object parts) = some children := by
  obtain ⟨parts, read, found⟩ := exists_parts order tag [("children", .array (children.map toJson))]
    (by simp) known
  exact ⟨parts, read, children_object order (found "children") back⟩

theorem rule_arrange {rule : Rule Node} (kept : order.Keeps rule.predicate.values)
    (back : ofJson? .inner (order.arrange rule.target.toJson) = some rule.target) :
    (fold Reading.ofLayer (order.arrange (.object [("predicate", rule.predicate.toJson),
      ("target", rule.target.toJson)]))).rule = some rule := by
  obtain ⟨parts, folded, found⟩ := order.exists_parts Reading.ofLayer
    [("predicate", rule.predicate.toJson), ("target", rule.target.toJson)] (by simp)
  have predicate : Json.required parts "predicate" (fun part => Predicate.ofJson? .inner part.1) =
      some rule.predicate :=
    Json.required_eq (found "predicate") (Predicate.ofJson?_arrange order kept .inner)
  have target : Json.required parts "target" (fun part => part.2.one .inner) = some rule.target :=
    Json.required_eq (found "target") back
  rw [folded]
  simp [Reading.ofLayer, Reading.required, Layer.record?, predicate, target]

theorem rules_arrange {rules : List (Rule Node)}
    (kept : ∀ rule ∈ rules, order.Keeps rule.predicate.values)
    (back : ∀ rule ∈ rules, ofJson? .inner (order.arrange rule.target.toJson) = some rule.target) :
    (fold Reading.ofLayer (order.arrange (.array (rules.map fun rule =>
      .object [("predicate", rule.predicate.toJson), ("target", rule.target.toJson)])))).rules =
      some rules := by
  obtain ⟨parts, folded, read⟩ : ∃ parts,
      fold Reading.ofLayer (order.arrange (.array (rules.map fun rule =>
        .object [("predicate", rule.predicate.toJson), ("target", rule.target.toJson)]))) =
        Reading.ofLayer (.array parts) ∧
      parts.mapM (fun part => part.2.rule) = some rules :=
    Json.exists_elements order Reading.ofLayer fun rule mem =>
      rule_arrange order (kept rule mem) (back rule mem)
  rw [folded]
  exact read

theorem isNull_eq_false {json : Json} (solid : json ≠ .null) : json.isNull = false := by
  cases json with
  | null => exact absurd rfl solid
  | _ => rfl

theorem optional_eq {α : Type} {parts : List (String × Part)} {name : String} (write : α → Json)
    {read : Json → Option α} {value : Option α}
    (held : parts.lookup name = (value.map write).map fun json =>
      (order.arrange json, fold Reading.ofLayer (order.arrange json)))
    (back : ∀ item, value = some item →
      Json.nullable read (order.arrange (write item)) = some (some item)) :
    Reading.optional parts name read = some value := by
  cases value with
  | none =>
    rw [Reading.optional, Json.withDefault, held]
    rfl
  | some item => exact Json.withDefault_eq held (back item rfl)

theorem exit_eq {parts : List (String × Part)} {name : String} {exit : Option Predicate}
    (held : parts.lookup name = (exit.map Predicate.toJson).map fun json =>
      (order.arrange json, fold Reading.ofLayer (order.arrange json)))
    (kept : order.Keeps (exit.toList.flatMap (·.values))) :
    Reading.optional parts name (Predicate.ofJson? .inner) = some exit := by
  refine optional_eq order Predicate.toJson held fun predicate given => ?_
  subst given
  have below : order.Keeps predicate.values := by simpa using kept
  exact Json.nullable_eq (order.arrange_ne_null (by cases predicate <;> exact Json.noConfusion))
    (Predicate.ofJson?_arrange order below .inner)

theorem leaf_arrange {spec : AgentSpec} (finite : spec.FiniteSettings) (context : Context) :
    (fold Reading.ofLayer (order.arrange (.object
      (("type", .string "leaf") :: spec.fields Number.Single.toJson)))).kind context =
      some (.leaf spec) := by
  obtain ⟨parts, read, found⟩ := exists_parts order "leaf" (spec.fields Number.Single.toJson)
    (.sublist ((spec.names_fields _).cons_cons "type") (by decide)) (by decide)
  have specRead : AgentSpec.ofLayer? ((Layer.object parts).map Prod.fst) = some spec := by
    refine AgentSpec.ofLayer?_object order finite fun name other => ?_
    rw [lookup_map_snd, found, KeyMap.lookup_cons_eq, if_neg other, Option.map_map]
    rfl
  rw [read]
  simp [Reading.kindOfTagged, specRead]

/-- A default is read if its step is, and its absence as nothing. -/
theorem otherwise_eq {parts : List (String × Part)} {otherwise : Option Node}
    (held : parts.lookup "default" = (otherwise.map toJson).map fun json =>
      (order.arrange json, fold Reading.ofLayer (order.arrange json)))
    (back : ∀ target, otherwise = some target →
      ofJson? .inner (order.arrange target.toJson) = some target) :
    Json.withDefault parts "default" none (fun part =>
      if part.1.isNull then some none else (part.2.one .inner).map some) = some otherwise := by
  cases otherwise with
  | none =>
    rw [Json.withDefault, held]
    rfl
  | some target =>
    have solid : (order.arrange target.toJson).isNull = false :=
      isNull_eq_false (order.arrange_ne_null target.toJson_ne_null)
    refine Json.withDefault_eq held ?_
    change (if (order.arrange target.toJson).isNull then some none
      else (ofJson? .inner (order.arrange target.toJson)).map some) = some (some target)
    rw [solid, back target rfl]
    rfl

theorem route_arrange {key : String} {rules : List (Rule Node)} {otherwise : Option Node}
    (kept : order.Keeps (Kind.route key rules otherwise).values)
    (back : ∀ child ∈ (Kind.route key rules otherwise).children,
      ofJson? .inner (order.arrange child.toJson) = some child) (context : Context) :
    (fold Reading.ofLayer (order.arrange (.object (((Kind.route key rules otherwise).map toJson).fields
      Number.Single.toJson)))).kind context = some (.route key rules otherwise) := by
  obtain ⟨parts, read, found⟩ := exists_parts order "route"
    ([("key", .string key), ("rules", .array (rules.map fun rule =>
      .object [("predicate", rule.predicate.toJson), ("target", rule.target.toJson)]))] ++
      Json.present "default" id (otherwise.map toJson)) (by
    rw [List.map_append]
    exact .sublist (.cons_cons _ (.append (.refl _) (Json.names_present ..))) (by simp))
    (by decide)
  simp only [KeyMap.lookup_cons_eq, List.lookup_append, Json.lookup_present] at found
  have keyRead : Reading.required parts "key" Json.string? = some key :=
    Json.required_eq (found "key") rfl
  have rulesRead : Json.required parts "rules" (fun part => part.2.rules) = some rules := by
    refine Json.required_eq (found "rules") (rules_arrange order (fun rule mem value among => ?_)
      fun rule mem => back rule.target ?_)
    · exact kept value (List.mem_flatMap_of_mem mem among)
    · exact List.mem_append_left _ (List.mem_map_of_mem mem)
  have otherwiseHeld : parts.lookup "default" = (otherwise.map toJson).map fun json =>
      (order.arrange json, fold Reading.ofLayer (order.arrange json)) := by
    simp [found]
  have otherwiseRead := otherwise_eq order otherwiseHeld fun target given =>
    back target (List.mem_append_right _ (Option.mem_toList.2 given))
  -- In the kind with documents for its steps the targets are documents already.
  have targets : (Kind.map toJson (.route key rules otherwise)).fields Number.Single.toJson =
      ("type", .string "route") :: ([("key", .string key), ("rules", .array (rules.map fun rule =>
        .object [("predicate", rule.predicate.toJson), ("target", rule.target.toJson)]))] ++
        Json.present "default" id (otherwise.map toJson)) := by
    simp [Kind.fields, Kind.map, Kind.tag]
  rw [targets, read]
  simp [Reading.kindOfTagged, Layer.record?, keyRead, rulesRead, otherwiseRead]

/-- The document of a kind is read if the steps directly below are. -/
theorem kind_arrange {kind : Kind Node} (finite : kind.FiniteSettings)
    (kept : order.Keeps kind.values)
    (back : ∀ child ∈ kind.children, ofJson? .inner (order.arrange child.toJson) = some child)
    (context : Context) :
    (fold Reading.ofLayer (order.arrange
      (.object ((kind.map toJson).fields Number.Single.toJson)))).kind context = some kind := by
  -- One case for each tag: the fields are found again, and each of them is read back.
  cases kind with
  | leaf spec => exact leaf_arrange order (finite spec rfl) context
  | sequence children =>
    obtain ⟨parts, read, childrenRead⟩ := exists_parts_children order "sequence" (by decide) back
    refine (read context).trans ?_
    simp [Reading.kindOfTagged, childrenRead, Kind.children]
  | parallel children =>
    obtain ⟨parts, read, childrenRead⟩ := exists_parts_children order "parallel" (by decide) back
    refine (read context).trans ?_
    simp [Reading.kindOfTagged, childrenRead, Kind.children]
  | loop body bound exit =>
    obtain ⟨parts, read, found⟩ := exists_parts order "loop"
      ([("body", body.toJson), ("max_iterations", .ofNat bound.toNat)] ++
        Json.present "until" Predicate.toJson exit) (by
      rw [List.map_append]
      exact .sublist (.cons_cons _ (.append (.refl _) (Json.names_present ..))) (by simp))
      (by decide)
    simp only [KeyMap.lookup_cons_eq, List.lookup_append, Json.lookup_present] at found
    have bodyRead : Reading.body parts = some body :=
      Json.required_eq (found "body") (back body (List.mem_singleton_self body))
    have boundRead : Reading.required parts "max_iterations" Json.uint32? = some bound :=
      Json.required_eq (found "max_iterations") (Json.uint32?_ofNat bound)
    have exitRead : Reading.optional parts "until" (Predicate.ofJson? .inner) = some exit :=
      exit_eq order (by simp [found]) kept
    refine (read context).trans ?_
    simp [Reading.kindOfTagged, Layer.record?, bodyRead, boundRead, exitRead]
  | transform ops =>
    obtain ⟨parts, read, found⟩ := exists_parts order "transform"
      [("ops", .array (ops.map (·.toJson)))] (by simp) (by decide)
    have listed : StateOp.listOfJson? .inner (order.arrange (.array (ops.map (·.toJson)))) =
        some ops := by
      rw [Arrangement.arrange_array, List.map_map]
      exact mapM_map_eq_some fun op mem =>
        StateOp.ofJson?_arrange order .inner fun value among =>
          kept value (List.mem_flatMap_of_mem mem among)
    have opsRead : Reading.required parts "ops" (StateOp.listOfJson? .inner) = some ops :=
      Json.required_eq (found "ops") listed
    refine (read context).trans ?_
    simp [Reading.kindOfTagged, Layer.record?, opsRead]
  | tap action =>
    obtain ⟨parts, read, found⟩ := exists_parts order "tap" [("action", action.toJson)] (by simp)
      (by decide)
    have actionRead : Reading.required parts "action" TapAction.ofJson? = some action :=
      Json.required_eq (found "action") (TapAction.ofJson?_arrange order kept)
    refine (read context).trans ?_
    simp [Reading.kindOfTagged, Layer.record?, actionRead]
  | fallback children =>
    obtain ⟨parts, read, childrenRead⟩ := exists_parts_children order "fallback" (by decide) back
    refine (read context).trans ?_
    simp [Reading.kindOfTagged, childrenRead, Kind.children]
  | race children =>
    obtain ⟨parts, read, childrenRead⟩ := exists_parts_children order "race" (by decide) back
    refine (read context).trans ?_
    simp [Reading.kindOfTagged, childrenRead, Kind.children]
  | gate predicate message approvalKey =>
    obtain ⟨parts, read, found⟩ := exists_parts order "gate"
      [("predicate", predicate.toJson), ("message", .string message),
        ("approval_key", .string approvalKey)] (by simp) (by decide)
    have predicateRead : Reading.required parts "predicate" (Predicate.ofJson? .inner) =
        some predicate :=
      Json.required_eq (found "predicate") (Predicate.ofJson?_arrange order kept .inner)
    have messageRead : Reading.required parts "message" Json.string? = some message :=
      Json.required_eq (found "message") rfl
    have approvalRead : Reading.required parts "approval_key" Json.string? = some approvalKey :=
      Json.required_eq (found "approval_key") rfl
    refine (read context).trans ?_
    simp [Reading.kindOfTagged, Layer.record?, predicateRead, messageRead, approvalRead]
  | mapOver body listKey itemKey outputKey =>
    obtain ⟨parts, read, found⟩ := exists_parts order "map_over"
      [("body", body.toJson), ("list_key", .string listKey), ("item_key", .string itemKey),
        ("output_key", .string outputKey)] (by simp) (by decide)
    have bodyRead : Reading.body parts = some body :=
      Json.required_eq (found "body") (back body (List.mem_singleton_self body))
    have listRead : Reading.required parts "list_key" Json.string? = some listKey :=
      Json.required_eq (found "list_key") rfl
    have itemRead : Reading.required parts "item_key" Json.string? = some itemKey :=
      Json.required_eq (found "item_key") rfl
    have outputRead : Reading.required parts "output_key" Json.string? = some outputKey :=
      Json.required_eq (found "output_key") rfl
    refine (read context).trans ?_
    simp [Reading.kindOfTagged, Layer.record?, bodyRead, listRead, itemRead, outputRead]
  | timeout body deadline =>
    obtain ⟨parts, read, found⟩ := exists_parts order "timeout"
      [("body", body.toJson), ("deadline_ms", .ofNat deadline.toNat)] (by simp) (by decide)
    have bodyRead : Reading.body parts = some body :=
      Json.required_eq (found "body") (back body (List.mem_singleton_self body))
    have deadlineRead : Reading.required parts "deadline_ms" Json.uint64? = some deadline :=
      Json.required_eq (found "deadline_ms") (Json.uint64?_ofNat deadline)
    refine (read context).trans ?_
    simp [Reading.kindOfTagged, Layer.record?, bodyRead, deadlineRead]
  | route key rules otherwise => exact route_arrange order kept back context
  | transfer target condition =>
    obtain ⟨parts, read, found⟩ := exists_parts order "transfer"
      (("target", .string target) :: Json.present "condition" Predicate.toJson condition)
      (.sublist (.cons_cons _ (.cons_cons _ (Json.names_present ..))) (by simp)) (by decide)
    simp only [KeyMap.lookup_cons_eq, Json.lookup_present] at found
    have targetRead : Reading.required parts "target" Json.string? = some target :=
      Json.required_eq (found "target") rfl
    have conditionRead : Reading.optional parts "condition" (Predicate.ofJson? .inner) =
        some condition := exit_eq order (by simp [found]) kept
    refine (read context).trans ?_
    simp [Reading.kindOfTagged, Layer.record?, targetRead, conditionRead]
  | capture key =>
    obtain ⟨parts, read, found⟩ := exists_parts order "capture" [("key", .string key)] (by simp)
      (by decide)
    have keyRead : Reading.required parts "key" Json.string? = some key :=
      Json.required_eq (found "key") rfl
    refine (read context).trans ?_
    simp [Reading.kindOfTagged, Layer.record?, keyRead]

/-- A node is read if its kind is: name and contract stand beside the kind and are found in its midst. -/
theorem ofJson?_of_kind {node : Node} {context : Context}
    (back : (fold Reading.ofLayer (order.arrange
      (.object ((node.kind.map toJson).fields Number.Single.toJson)))).kind context = some node.kind) :
    ofJson? context (order.arrange node.toJson) = some node := by
  obtain ⟨parts, folded, found⟩ := order.exists_parts Reading.ofLayer
    (("name", .string node.name) :: node.contract.fields ++
      [("kind", .object ((node.kind.map toJson).fields Number.Single.toJson))]) (by
    rw [List.map_append]
    exact .sublist ((node.contract.names_fields.cons_cons _).append (.refl _)) (by simp))
  simp only [List.cons_append, KeyMap.lookup_cons_eq, List.lookup_append] at found
  have nameRead : Reading.required parts "name" Json.string? = some node.name :=
    Json.required_eq (found "name") rfl
  have contractRead : Contract.ofFields? (parts.map fun field => (field.1, field.2.1)) =
      some node.contract := by
    refine Contract.ofFields?_eq order fun name notName notKind => ?_
    rw [lookup_map_snd, found, if_neg notName, if_neg notKind, List.lookup_nil, Option.or_none,
      Option.map_map]
    rfl
  have kindHeld := found "kind"
  rw [if_neg (by decide), node.contract.lookup_kind, if_pos rfl, Option.none_or, Option.map_some]
    at kindHeld
  have kindRead : Json.required parts "kind" (fun part => part.2.kind context) = some node.kind :=
    Json.required_eq kindHeld back
  rw [toJson_eq, ofJson?, folded]
  simp only [Reading.ofLayer, nameRead, contractRead, kindRead, Option.bind_eq_bind,
    Option.bind_some, Option.pure_def]
  cases node
  rfl

/-- The document of a node is read, in whatever order it holds its fields, if that order is the one of
the values inside of the node. -/
theorem ofJson?_arrange {node : Node} (finite : node.FiniteSettings)
    (kept : order.Keeps node.values) (context : Context) :
    ofJson? context (order.arrange node.toJson) = some node := by
  induction node using Tree.induction generalizing context with
  | step node ih =>
    have here : node ∈ node.steps := Tree.mem_steps.2 (.inl rfl)
    have back : ∀ child ∈ node.children,
        ofJson? .inner (order.arrange (toJson child)) = some child := by
      intro child mem
      have below : ∀ step ∈ child.steps, step ∈ node.steps := fun step among =>
        Tree.mem_steps.2 (.inr ⟨child, mem, among⟩)
      refine ih child mem (fun step among => finite step (below step among))
        (fun value among => ?_) .inner
      obtain ⟨step, within, holds⟩ := List.mem_flatMap.1 among
      exact kept value (List.mem_flatMap_of_mem (below step within) holds)
    have keptHere : order.Keeps node.kind.values := fun value among =>
      kept value (List.mem_flatMap_of_mem here among)
    exact ofJson?_of_kind order (kind_arrange order (finite node here) keptHere back context)

end kinds

/-- A node whose settings are finite is read back from its document. So a document that gives such a node
may be replaced by the one that is written for the node: checking, inference of visibility and export see
no difference. The same node is read if the fields of the document are put into another order, as long as
that order is the one of the values inside of the node. -/
theorem ofJson?_toJson {node : Node} (finite : node.FiniteSettings) (context : Context) :
    ofJson? context node.toJson = some node ∧
      (∀ source document, ofJson? source document = some node →
        ∃ again, ofJson? context node.toJson = some again ∧ again = node ∧ (again == node) = true ∧
          (∀ seed, checkWith again seed = checkWith node seed) ∧
          (∀ policy, inferVisibility again policy = inferVisibility node policy) ∧
          ∀ format options, exportGraph format options again = exportGraph format options node) ∧
      ∀ order : Arrangement, order.Keeps node.values →
        ofJson? context (order.arrange node.toJson) = some node := by
  have arranged (order : Arrangement) (kept : order.Keeps node.values) :
      ofJson? context (order.arrange node.toJson) = some node :=
    ofJson?_arrange order finite kept context
  have read : ofJson? context node.toJson = some node := by
    have asWritten := arranged .asWritten fun value _ => Arrangement.arrange_asWritten value
    rwa [Arrangement.arrange_asWritten] at asWritten
  refine ⟨read, fun source document _ => ?_, arranged⟩
  exact ⟨node, read, rfl, BEq.rfl, fun _ => rfl, fun _ => rfl, fun _ _ => rfl⟩

section Bounds

/-- The number one. -/
def evenTemperature : Number.Single := .finite ⟨false, 0x3f800000, by decide⟩

def boundsValue : Json := .object [("high", .bool true), ("low", .null)]

/-- One step asks a model at this temperature, the next one writes a value with fields. -/
def boundsNode : Node :=
  .mk "draft" .empty (.sequence [
    .mk "answer" .empty (.leaf
      { AgentSpec.empty with generation := some ⟨some evenTemperature, none, none⟩ }),
    .mk "limits" .empty (.transform [.set "bounds" boundsValue])])

/-- The same node as it may come: the temperature is an integer, and the second step is an array. -/
def boundsDocument : Json :=
  .object [
    ("kind", .object [
      ("children", .array [
        .object [
          ("kind", .object [
            ("generation", .object [("temperature", .number (.integer 1)), ("top_p", .null)]),
            ("type", .string "leaf")]),
          ("name", .string "answer")],
        .object [
          ("kind", .array [.string "transform", .array [
            .array [.string "set", .string "bounds", boundsValue]]]),
          ("name", .string "limits")]]),
      ("type", .string "sequence")]),
    ("name", .string "draft")]

theorem ofJson?_toJson_bounds :
    FiniteSettings boundsNode ∧ ofJson? .outer boundsDocument = some boundsNode ∧
      Arrangement.ascending.Keeps (values boundsNode) ∧
      ofJson? .outer (toJson boundsNode) = some boundsNode ∧
      (∃ again, ofJson? .outer (toJson boundsNode) = some again ∧ again = boundsNode ∧
        (again == boundsNode) = true ∧
        (∀ seed, checkWith again seed = checkWith boundsNode seed) ∧
        (∀ policy, inferVisibility again policy = inferVisibility boundsNode policy) ∧
        ∀ format options,
          exportGraph format options again = exportGraph format options boundsNode) ∧
      ofJson? .outer (Arrangement.ascending.arrange (toJson boundsNode)) = some boundsNode := by
  have finite : FiniteSettings boundsNode := by
    intro step mem spec leaf generation given
    have same : generation = ⟨some evenTemperature, none, none⟩ := by
      change step ∈ [boundsNode, _, _] at mem
      rcases List.mem_cons.1 mem with rfl | mem
      · cases leaf
      rcases List.mem_cons.1 mem with rfl | mem
      · cases leaf
        exact (Option.some.inj given).symm
      · obtain rfl := List.mem_singleton.1 mem
        cases leaf
    subst same
    refine ⟨fun x held => ⟨_, (Option.some.inj held).symm⟩, fun x held => by cases held⟩
  have kept : Arrangement.ascending.Keeps (values boundsNode) :=
    List.forall_mem_singleton.2 rfl
  have read : ofJson? .outer boundsDocument = some boundsNode := rfl
  obtain ⟨plain, again, arranged⟩ := ofJson?_toJson finite .outer
  exact ⟨finite, read, kept, plain, again .outer boundsDocument read, arranged .ascending kept⟩

end Bounds

end Node

end Workflow
