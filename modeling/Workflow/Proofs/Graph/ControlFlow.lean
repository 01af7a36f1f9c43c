import Mathlib.Data.List.Nodup
import Mathlib.Logic.Relation
import Workflow.Graph.Basic
import Workflow.Proofs.Tree.Occurrence
import Workflow.Proofs.Tree.PathText

/-! The graph of a workflow is a tree over its nodes: control comes to every node but the root from
exactly one other node, and all of it starts at the root. -/
namespace Workflow

/-- From where control comes to a place below the root: from the step above it, but inside of a
sequence from the step before it. -/
inductive Tree.ComesFrom {ν : Type} (root : Tree ν) : Place → Place → Prop where
  | above {place : Place} {group : Tree ν} {i : Nat} (at_ : root.at? place = some group)
      (below : i < group.children.length)
      (leads : i = 0 ∨ ∀ steps, group.kind ≠ .sequence steps) :
      ComesFrom root place (place ++ [i])
  | before {place : Place} {group : Tree ν} {steps : List (Tree ν)} {i : Nat}
      (at_ : root.at? place = some group) (inside : group.kind = .sequence steps)
      (next : i + 1 < steps.length) : ComesFrom root (place ++ [i]) (place ++ [i + 1])

namespace Tree

variable {ν : Type} {root child : Tree ν} {source target place : Place} {i : Nat}

theorem ComesFrom.cons (h : child.ComesFrom source target) (at_ : root.children[i]? = some child) :
    root.ComesFrom (i :: source) (i :: target) := by
  cases h with
  | above found below leads =>
    exact .above (at?_cons_eq_some.2 ⟨child, at_, found⟩) below leads
  | @before place group steps j found inside next =>
    have found : root.at? (i :: place) = some group := at?_cons_eq_some.2 ⟨child, at_, found⟩
    exact ComesFrom.before found inside next

/-- Control comes to a place from one other place only. -/
theorem ComesFrom.unique {other : Place} (h : root.ComesFrom source target)
    (h' : root.ComesFrom other target) : source = other := by
  cases h with
  | @above place group i at_ below leads =>
    generalize same : source ++ [i] = target at h'
    cases h' with
    | above => exact (List.append_inj' same rfl).1
    | before at' inside next =>
      obtain ⟨rfl, last⟩ := List.append_inj' same rfl
      obtain rfl := List.singleton_inj.1 last
      obtain rfl := Option.some.inj (at_.symm.trans at')
      exact absurd inside (leads.resolve_left (Nat.succ_ne_zero _) _)
  | @before place group steps i at_ inside next =>
    generalize same : place ++ [i + 1] = target at h'
    cases h' with
    | above at' below leads =>
      obtain ⟨rfl, last⟩ := List.append_inj' same rfl
      obtain rfl := List.singleton_inj.1 last
      obtain rfl := Option.some.inj (at_.symm.trans at')
      exact absurd inside (leads.resolve_left (Nat.succ_ne_zero _) _)
    | before =>
      obtain ⟨rfl, last⟩ := List.append_inj' same rfl
      rw [Nat.succ.inj (List.singleton_inj.1 last)]

/-- Control only goes forward in the walk. -/
theorem ComesFrom.lt (h : root.ComesFrom source target) : source < target := by
  cases h with
  | @above _ _ i =>
    have longer : source ++ [] < source ++ [i] := List.append_left_lt (List.nil_lt_cons i [])
    rwa [List.append_nil] at longer
  | before => exact List.append_left_lt (List.cons_lt_cons_iff.2 (.inl (Nat.lt_succ_self _)))

theorem ComesFrom.exists_at? (h : root.ComesFrom source target) :
    (∃ step, root.at? source = some step) ∧ ∃ step, root.at? target = some step := by
  cases h with
  | above at_ below leads =>
    exact ⟨⟨_, at_⟩, ⟨_, (at?_snoc at_).trans (List.getElem?_eq_getElem below)⟩⟩
  | before at_ inside next =>
    rw [← children_of_sequence inside] at next
    have first := Nat.lt_of_succ_lt next
    exact ⟨⟨_, (at?_snoc at_).trans (List.getElem?_eq_getElem first)⟩,
      ⟨_, (at?_snoc at_).trans (List.getElem?_eq_getElem next)⟩⟩

theorem reflTransGen_singleton (below : i < root.children.length) :
    Relation.ReflTransGen root.ComesFrom [] [i] := by
  induction i with
  | zero => exact .single (.above (at?_nil root) below (.inl rfl))
  | succ i ih =>
    by_cases inside : ∃ steps, root.kind = .sequence steps
    · obtain ⟨steps, inside⟩ := inside
      have earlier := ih (Nat.lt_of_succ_lt below)
      rw [children_of_sequence inside] at below
      exact earlier.tail (.before (at?_nil root) inside below)
    · exact .single (.above (at?_nil root) below (.inr (not_exists.1 inside)))

/-- From any place the way back ends at the root: through the earlier steps of a sequence, then
up. -/
theorem reflTransGen_comesFrom {step : Tree ν} (at_ : root.at? place = some step) :
    Relation.ReflTransGen root.ComesFrom [] place := by
  induction place generalizing root with
  | nil => exact .refl
  | cons i place ih =>
    obtain ⟨child, child_at, at_⟩ := at?_cons_eq_some.1 at_
    have below := (List.getElem?_eq_some_iff.1 child_at).1
    have inner : Relation.ReflTransGen root.ComesFrom [i] (i :: place) :=
      (ih at_).lift (i :: ·) fun _ _ h => h.cons child_at
    exact (reflTransGen_singleton below).trans inner

theorem lt_of_transGen (h : Relation.TransGen root.ComesFrom source target) : source < target := by
  induction h with
  | single last => exact last.lt
  | tail _ last ih => exact List.lt_trans ih last.lt

end Tree

namespace Graph

variable {root : Node} {path : Path} {edge : Edge}

theorem length_edgeLabels {α : Type} (kind : Kind α) :
    (edgeLabels kind).length = kind.children.length := by
  cases kind with
  | loop body bound exit => cases exit <;> rfl
  | _ => simp [edgeLabels, Kind.children]

/-- Each child has a label for the edge to it. -/
theorem zipIdx_children {α : Type} (kind : Kind α) :
    kind.children.zipIdx =
      ((kind.children.zip (edgeLabels kind)).zipIdx).map (Prod.map Prod.fst id) := by
  have unlabelled : (kind.children.zip (edgeLabels kind)).map Prod.fst = kind.children :=
    List.map_fst_zip (Nat.le_of_eq (length_edgeLabels kind).symm)
  rw [← List.zipIdx_map, unlabelled]

/-- The edges inside of each child and the one to it, child after child. -/
theorem edgesFrom_eq (root : Node) (path : Path) :
    edgesFrom root path =
      ((root.children.zip (edgeLabels root.kind)).zipIdx).flatMap fun ((child, label), i) =>
        edgesFrom child (path.child i) ++ [⟨sourceOf root.kind path i, path.child i, label⟩] := by
  rw [edgesFrom, Tree.fold_eq]
  simp [Tree.children, List.zip_map_left, List.zipIdx_map, List.flatMap_map, edgesFrom]

/-- In the order of the edges their targets are the nodes below the root, each after those below
it. -/
theorem map_target_edgesFrom (root : Node) (path : Path) :
    (edgesFrom root path).map (·.target) ++ [path] =
      root.completions.map fun (place, _) => path ++ place := by
  induction root using Tree.induction generalizing path with
  | step root ih =>
    have numbered : root.children.zipIdx =
        ((root.children.zip (edgeLabels root.kind)).zipIdx).map (Prod.map Prod.fst id) :=
      zipIdx_children root.kind
    rw [edgesFrom_eq, Tree.completions_eq, List.map_append, List.map_flatMap, List.map_flatMap,
      numbered, List.flatMap_map]
    simp only [List.map_singleton, List.append_nil]
    refine congrArg (· ++ [path]) (List.flatMap_congr fun ((child, label), i) mem => ?_)
    have child_mem := (List.of_mem_zip (List.fst_mem_of_mem_zipIdx mem)).1
    have inner := ih child child_mem (path.child i)
    simp only [List.map_append, List.map_singleton, List.map_map]
    rw [inner]
    simp only [Path.child, List.append_assoc, List.singleton_append]
    rfl

theorem sourceOf_zero {α : Type} (kind : Kind α) (path : Path) : sourceOf kind path 0 = path := by
  cases kind <;> rfl

theorem sourceOf_of_ne_sequence {α : Type} {kind : Kind α} (h : ∀ steps, kind ≠ .sequence steps)
    (path : Path) (i : Nat) : sourceOf kind path i = path := by
  cases kind with
  | sequence steps => exact absurd rfl (h steps)
  | _ => rfl

theorem comesFrom_sourceOf {root : Node} {i : Nat} (path : Path)
    (below : i < root.children.length) :
    ∃ source, sourceOf root.kind path i = path ++ source ∧ root.ComesFrom source [i] := by
  by_cases inside : ∃ steps, root.kind = .sequence steps
  · obtain ⟨steps, inside⟩ := inside
    cases i with
    | zero =>
      refine ⟨[], ?_, .above (Tree.at?_nil root) below (.inl rfl)⟩
      rw [sourceOf_zero, List.append_nil]
    | succ i =>
      rw [Tree.children_of_sequence inside] at below
      refine ⟨[i], ?_, .before (Tree.at?_nil root) inside below⟩
      rw [inside]
      rfl
  · refine ⟨[], ?_, .above (Tree.at?_nil root) below (.inr (not_exists.1 inside))⟩
    rw [sourceOf_of_ne_sequence (not_exists.1 inside), List.append_nil]

theorem comesFrom_of_mem_edgesFrom (mem : edge ∈ edgesFrom root path) :
    ∃ source target, edge.source = path ++ source ∧ edge.target = path ++ target ∧
      root.ComesFrom source target := by
  induction root using Tree.induction generalizing path with
  | step root ih =>
    rw [edgesFrom_eq, List.mem_flatMap] at mem
    obtain ⟨⟨⟨child, label⟩, i⟩, numbered, mem⟩ := mem
    have child_at : root.children[i]? = some child :=
      (List.getElem?_zip_eq_some.1 (List.mem_zipIdx_iff_getElem?.1 numbered)).1
    rcases List.mem_append.1 mem with inner | direct
    · obtain ⟨source, target, from_source, to_target, comes⟩ :=
        ih child (List.mem_of_getElem? child_at) inner
      refine ⟨i :: source, i :: target, ?_, ?_, comes.cons child_at⟩
      · rw [from_source, Path.child, List.append_assoc, List.singleton_append]
      · rw [to_target, Path.child, List.append_assoc, List.singleton_append]
    · obtain ⟨source, from_source, comes⟩ :=
        comesFrom_sourceOf path (List.getElem?_eq_some_iff.1 child_at).1
      obtain rfl := List.mem_singleton.1 direct
      exact ⟨source, [i], from_source, rfl, comes⟩

/-- The identifier of the node at a place: that of the root, then the positions on the way down. -/
def identifierAt (place : Place) : String :=
  "n0" ++ String.join (place.map fun i => "_" ++ i.repr)

theorem identifier_cons (place : Place) : identifier (0 :: place) = identifierAt place := by
  rw [identifier, Path.text_cons, ← String.append_assoc]
  rfl

theorem identifierAt_injective : Function.Injective identifierAt := by
  intro left right same
  rw [← identifier_cons, ← identifier_cons, identifier, identifier, String.append_right_inj] at same
  have path : 0 :: left = 0 :: right :=
    Path.eq_of_text_eq (by decide : "_".toList = ['_']) (by decide) (by simp) (by simp) same
  exact (List.cons.inj path).2

theorem newline_not_mem_identifier (path : Path) : '\n' ∉ (identifier path).toList := by
  rw [identifier, String.toList_append, List.mem_append, not_or]
  exact ⟨by decide, Path.not_mem_text (by decide) (by decide) path⟩

def identifiers (graph : Graph) : List String :=
  graph.vertices.map fun vertex => identifier vertex.path

/-- Whether there is an edge from one identifier to another one. -/
def Leads (graph : Graph) (source target : String) : Prop :=
  ∃ edge ∈ graph.edges, identifier edge.source = source ∧ identifier edge.target = target

theorem identifiers_ofNode (root : Node) :
    (ofNode root).identifiers = root.occurrences.map fun (place, _) => identifierAt place := by
  simp only [identifiers, ofNode, Tree.located_eq_map, List.map_map]
  exact List.map_congr_left fun (place, node) _ => identifier_cons place

theorem mem_identifiers_ofNode {id : String} :
    id ∈ (ofNode root).identifiers ↔
      ∃ place node, root.at? place = some node ∧ identifierAt place = id := by
  rw [identifiers_ofNode, List.mem_map]
  simp only [Prod.exists, Tree.mem_occurrences]

theorem nodup_identifiers (root : Node) : (ofNode root).identifiers.Nodup := by
  have places : (root.occurrences.map Prod.fst).Nodup :=
    root.pairwise_lt_occurrences.imp fun {first second} less same => by
      rw [same] at less
      exact List.lt_irrefl second less
  rw [identifiers_ofNode]
  have distinct := places.map identifierAt_injective
  rwa [List.map_map] at distinct

/-- The targets of the edges and the root are all nodes, each once. -/
theorem targets_perm (root : Node) :
    ("n0" :: (ofNode root).edges.map fun edge => identifier edge.target).Perm
      (ofNode root).identifiers := by
  have targets := congrArg (List.map identifier) (map_target_edgesFrom root .root)
  rw [List.map_append, List.map_map, List.map_map] at targets
  have spelled : root.completions.map (identifier ∘ fun (place, _) => Path.root ++ place) =
      root.completions.map fun (place, _) => identifierAt place :=
    List.map_congr_left fun (place, _) _ => identifier_cons place
  rw [identifiers_ofNode]
  refine (List.perm_append_singleton "n0" _).symm.trans ?_
  refine (List.Perm.of_eq (targets.trans spelled)).trans ?_
  exact root.completions_perm_occurrences.map _

theorem length_vertices (root : Node) : (ofNode root).vertices.length = root.count := by
  rw [ofNode, List.length_map, Tree.located_eq_map, List.length_map, Tree.count, Tree.walk_eq_map,
    List.length_map]

theorem length_edges (root : Node) : (ofNode root).edges.length + 1 = root.count := by
  have same := (targets_perm root).length_eq
  rwa [List.length_cons, List.length_map, identifiers, List.length_map, length_vertices] at same

theorem count_target {id : String} (mem : id ∈ (ofNode root).identifiers) :
    ((ofNode root).edges.map fun edge => identifier edge.target).count id =
      if id = "n0" then 0 else 1 := by
  have once := (targets_perm root).count_eq id
  rw [List.count_eq_one_of_mem (nodup_identifiers root) mem, List.count_cons] at once
  by_cases start : id = "n0"
  · rw [if_pos (beq_iff_eq.2 start.symm)] at once
    rw [if_pos start]
    exact Nat.succ.inj once
  · rw [if_neg (mt beq_iff_eq.1 (Ne.symm start))] at once
    rw [if_neg start]
    exact once

theorem comesFrom_of_mem_edges (mem : edge ∈ (ofNode root).edges) :
    ∃ source target, identifier edge.source = identifierAt source ∧
      identifier edge.target = identifierAt target ∧ root.ComesFrom source target := by
  obtain ⟨source, target, from_source, to_target, comes⟩ := comesFrom_of_mem_edgesFrom mem
  refine ⟨source, target, ?_, ?_, comes⟩
  · rw [from_source]
    exact identifier_cons source
  · rw [to_target]
    exact identifier_cons target

theorem exists_edge_of_comesFrom {source target : Place} (h : root.ComesFrom source target) :
    ∃ edge ∈ (ofNode root).edges, identifier edge.source = identifierAt source ∧
      identifier edge.target = identifierAt target := by
  -- Some edge ends at the target, and its source can only be this one.
  obtain ⟨step, at_⟩ := h.exists_at?.2
  have listed : identifierAt target ∈
      "n0" :: (ofNode root).edges.map fun edge => identifier edge.target :=
    (targets_perm root).mem_iff.2 (mem_identifiers_ofNode.2 ⟨target, step, at_, rfl⟩)
  rcases List.mem_cons.1 listed with start | entered
  · have start : target = [] := identifierAt_injective start
    exact absurd (start ▸ h.lt) (List.not_lt_nil source)
  · obtain ⟨edge, mem, same⟩ := List.mem_map.1 entered
    obtain ⟨other, target', from_other, to_target, comes⟩ := comesFrom_of_mem_edges mem
    obtain rfl := identifierAt_injective (to_target.symm.trans same)
    obtain rfl := comes.unique h
    exact ⟨edge, mem, from_other, to_target⟩

theorem leads_iff {source target : String} :
    (ofNode root).Leads source target ↔
      ∃ first second, root.ComesFrom first second ∧ identifierAt first = source ∧
        identifierAt second = target := by
  constructor
  · intro leads
    obtain ⟨edge, mem, rfl, rfl⟩ := leads
    obtain ⟨first, second, from_first, to_second, comes⟩ := comesFrom_of_mem_edges mem
    exact ⟨first, second, comes, from_first.symm, to_second.symm⟩
  · intro places
    obtain ⟨first, second, comes, rfl, rfl⟩ := places
    exact exists_edge_of_comesFrom comes

theorem exists_transGen_of_leads {source target : String}
    (h : Relation.TransGen (ofNode root).Leads source target) :
    ∃ first second, Relation.TransGen root.ComesFrom first second ∧ identifierAt first = source ∧
      identifierAt second = target := by
  induction h with
  | single last =>
    obtain ⟨first, second, comes, rfl, rfl⟩ := leads_iff.1 last
    exact ⟨first, second, .single comes, rfl, rfl⟩
  | tail _ last ih =>
    obtain ⟨first, between, earlier, rfl, rfl⟩ := ih
    obtain ⟨between', second, comes, same, rfl⟩ := leads_iff.1 last
    obtain rfl := identifierAt_injective same
    exact ⟨first, second, earlier.tail comes, rfl, rfl⟩

/-- How a graph shows the control flow of a tree: as a tree over its nodes, in which the way back
from any of them ends at the root. -/
structure MirrorsControlFlow (root : Node) (graph : Graph) : Prop where
  /-- One vertex for each node, in the order of the walk. -/
  vertices : graph.identifiers = root.occurrences.map fun (place, _) => identifierAt place
  distinct : graph.identifiers.Nodup
  vertices_length : graph.vertices.length = root.count
  edges_length : graph.edges.length + 1 = root.count
  start : "n0" ∈ graph.identifiers
  entered : ∀ id ∈ graph.identifiers,
    (graph.edges.map fun edge => identifier edge.target).count id = if id = "n0" then 0 else 1
  declared : ∀ edge ∈ graph.edges,
    identifier edge.source ∈ graph.identifiers ∧ identifier edge.target ∈ graph.identifiers
  sources : ∀ edge ∈ graph.edges, ∃ source target, identifier edge.source = identifierAt source ∧
    identifier edge.target = identifierAt target ∧ root.ComesFrom source target
  reached : ∀ id ∈ graph.identifiers, Relation.ReflTransGen graph.Leads "n0" id
  acyclic : ∀ id, ¬ Relation.TransGen graph.Leads id id

/-- The graph of a tree mirrors its control flow. -/
theorem mirrorsControlFlow_ofNode (root : Node) : (ofNode root).MirrorsControlFlow root where
  vertices := identifiers_ofNode root
  distinct := nodup_identifiers root
  vertices_length := length_vertices root
  edges_length := length_edges root
  start := (targets_perm root).mem_iff.1 List.mem_cons_self
  entered _ mem := count_target mem
  declared edge mem := by
    obtain ⟨source, target, from_source, to_target, comes⟩ := comesFrom_of_mem_edges mem
    obtain ⟨⟨first, first_at⟩, second, second_at⟩ := comes.exists_at?
    exact ⟨mem_identifiers_ofNode.2 ⟨source, first, first_at, from_source.symm⟩,
      mem_identifiers_ofNode.2 ⟨target, second, second_at, to_target.symm⟩⟩
  sources edge mem := comesFrom_of_mem_edges mem
  reached id mem := by
    obtain ⟨place, node, at_, rfl⟩ := mem_identifiers_ofNode.1 mem
    exact (Tree.reflTransGen_comesFrom at_).lift identifierAt fun first second comes =>
      leads_iff.2 ⟨first, second, comes, rfl, rfl⟩
  acyclic id cycle := by
    obtain ⟨first, second, round, rfl, same⟩ := exists_transGen_of_leads cycle
    obtain rfl := identifierAt_injective same
    exact List.lt_irrefl _ (Tree.lt_of_transGen round)

end Graph

end Workflow
