import Workflow.Backend
import Workflow.Graph.Basic
import Workflow.Proofs.Tree.Occurrence
import Workflow.Proofs.Tree.PathText
import Workflow.Proofs.Visibility.Terminal

/-! One numbering of a workflow: the walk, the look-up of a name, the plan and the graph list the
same nodes in the same order under the same paths. -/
namespace Workflow

/-- What a plan says about the node at a place. -/
structure PlanStep.Describes (root : Node) (config : Config) (place : Place) (node : Node)
    (step : PlanStep) : Prop where
  pathText : step.pathText = "0" ++ String.join (place.map fun i => "." ++ i.repr)
  name : step.name = node.name
  kind : step.kind = node.kind.tag
  depth : step.depth = place.length
  reads : step.reads = node.reads
  writes : step.writes = node.writes
  /-- The class of the name, on which all nodes of that name have a say. -/
  visibility :
    (inferVisibility root config.visibility).get? node.name = some step.visibility

/-- What a graph shows of a step of the plan. -/
structure Graph.Vertex.Shows (step : PlanStep) (vertex : Graph.Vertex) : Prop where
  identifier : Graph.identifier vertex.path =
    "n" ++ step.pathText.map fun char => if char = '.' then '_' else char
  name : vertex.name = step.name
  tag : vertex.tag = step.kind
  reads : vertex.reads = step.reads
  writes : vertex.writes = step.writes

/-- A step of a plan as it is written. -/
structure PlanStep.Line where
  path : String
  name : String
  kind : String
  depth : Nat
  visibility : Visibility
  reads : KeySet
  writes : KeySet

def PlanStep.line (step : PlanStep) : Line :=
  ⟨step.pathText, step.name, step.kind, step.depth, step.visibility, step.reads, step.writes⟩

/-- The line of a step, then those of the steps below it: the path is written out and the depth is counted
on the way down. -/
def Plan.listFrom (map : VisibilityMap) (root : Node) : String → Nat → List PlanStep.Line →
    List PlanStep.Line :=
  root.fold fun node below path depth lines =>
    let line := ⟨path, node.name, node.kind.tag, depth, map.getD node.name .internal, node.reads,
      node.writes⟩
    below.children.zipIdx.foldl
      (fun lines (list, i) => list (path ++ "." ++ i.repr) (depth + 1) lines) (lines ++ [line])

/-- A name is looked up alike in a tree and in its plan. -/
inductive LookedUpAlike (root : Node) (plan : Plan) (name : String) : Prop where
  | absent (unused : ∀ node ∈ root.steps, node.name ≠ name)
      (in_tree : root.find? name = none) (in_plan : plan.step? name = none)
  /-- Both look-ups end at the first node of that name. -/
  | first (i : Nat) (place : Place) (node : Node) (step : PlanStep)
      (listed : root.occurrences[i]? = some (place, node)) (planned : plan.steps[i]? = some step)
      (named : node.name = name)
      (earlier : ∀ occurrence ∈ root.occurrences.take i, occurrence.2.name ≠ name)
      (in_tree : root.find? name = some node) (in_plan : plan.step? name = some step)

/-- Looking up a name looks at the step itself, then below each child in turn. -/
theorem Tree.find?_eq (tree : Node) (name : String) :
    tree.find? name =
      if tree.name = name then some tree else tree.children.findSome? (·.find? name) := by
  rw [find?, steps_eq, List.find?_cons, List.find?_flatMap]
  by_cases named : tree.name = name
  · simp only [beq_iff_eq.2 named, if_pos named]
  · simp only [beq_eq_false_iff_ne.2 named, if_neg named, find?]

/-- So the look-up ends at the first occurrence of the name. -/
theorem Tree.find?_eq_map (tree : Node) (name : String) :
    tree.find? name =
      (tree.occurrences.find? fun (_, node) => node.name == name).map Prod.snd := by
  induction tree using Tree.induction with
  | step tree ih =>
    have numbered : tree.children.findSome? (·.find? name) =
        tree.children.zipIdx.findSome? fun (child, _) => child.find? name := by
      conv_lhs => rw [← List.zipIdx_map_fst 0 tree.children, List.findSome?_map]
      rfl
    rw [find?_eq, occurrences_eq, List.find?_cons, List.find?_flatMap]
    by_cases named : tree.name = name
    · simp only [if_pos named, beq_iff_eq.2 named, Option.map_some]
    · simp only [if_neg named, beq_eq_false_iff_ne.2 named]
      rw [numbered, List.map_findSome?, ← List.head?_filterMap, ← List.head?_filterMap]
      refine congrArg List.head? (List.filterMap_congr fun (child, i) mem => ?_)
      refine (ih child (List.fst_mem_of_mem_zipIdx mem)).trans ?_
      rw [Function.comp_apply, List.find?_map, Option.map_map]
      rfl

section Plan

variable {root node : Node} {config : Config} {place : Place}

theorem PlanStep.describes_ofNode (at_ : root.at? place = some node) :
    (PlanStep.ofNode (inferVisibility root config.visibility) (0 :: place) node).Describes
      root config place node where
  pathText := Path.text_cons "." 0 place
  name := rfl
  kind := rfl
  depth := by simp [ofNode, PlanStep.depth]
  reads := rfl
  writes := rfl
  visibility := by
    obtain ⟨shown, found⟩ := exists_get?_inferVisibility.2 ⟨place, node, at_, rfl⟩
    rw [found, ofNode, KeyMap.getD, found, Option.getD_some]

variable (root config)

/-- One step of the plan for each node, at the path that its place makes. -/
theorem steps_ofNode_eq_map :
    (Plan.ofNode root config).steps = root.occurrences.map fun (place, node) =>
      .ofNode (inferVisibility root config.visibility) (0 :: place) node := by
  rw [Plan.ofNode, Tree.located_eq_map, List.map_map]
  rfl

theorem forall₂_describes :
    List.Forall₂ (fun (place, node) step => step.Describes root config place node)
      root.occurrences (Plan.ofNode root config).steps := by
  rw [steps_ofNode_eq_map, List.forall₂_map_right_iff, List.forall₂_same]
  intro (place, node) mem
  exact PlanStep.describes_ofNode (Tree.mem_occurrences.1 mem)

/-- Different places are written differently. -/
theorem nodup_pathText : ((Plan.ofNode root config).steps.map (·.pathText)).Nodup := by
  rw [steps_ofNode_eq_map, List.map_map, List.Nodup, List.pairwise_map]
  have ascending := List.pairwise_map.1 root.pairwise_lt_occurrences
  refine ascending.imp fun {first second} less same => ?_
  have path : 0 :: first.1 = 0 :: second.1 :=
    Path.eq_of_text_eq (by decide : ".".toList = ['.']) (by decide) (by simp) (by simp) same
  rw [(List.cons.inj path).2] at less
  exact List.lt_irrefl _ less

theorem count_pathText (step : PlanStep) (mem : step ∈ (Plan.ofNode root config).steps) :
    step.pathText.toList.count '.' = step.depth := by
  rw [steps_ofNode_eq_map] at mem
  obtain ⟨⟨place, node⟩, -, rfl⟩ := List.mem_map.1 mem
  exact Path.count_text (by decide) (by decide) 0 place

theorem forall₂_shows :
    List.Forall₂ (fun step vertex => vertex.Shows step) (Plan.ofNode root config).steps
      (Graph.ofNode root).vertices := by
  rw [steps_ofNode_eq_map, Graph.ofNode, Tree.located_eq_map, List.map_map,
    List.forall₂_map_left_iff, List.forall₂_map_right_iff, List.forall₂_same]
  intro (place, node) _
  have spelling := Path.map_text (by decide : ".".toList = ['.']) (by decide)
    (by decide : "_".toList = ['_']) (0 :: place)
  exact ⟨congrArg ("n" ++ ·) spelling.symm, rfl, rfl, rfl, rfl⟩

theorem listFrom_eq_foldl (map : VisibilityMap) (node : Node) (path : String) (depth : Nat)
    (lines : List PlanStep.Line) :
    Plan.listFrom map node path depth lines =
      node.children.zipIdx.foldl
        (fun lines (child, i) => Plan.listFrom map child (path ++ "." ++ i.repr) (depth + 1) lines)
        (lines ++ [⟨path, node.name, node.kind.tag, depth, map.getD node.name .internal, node.reads,
          node.writes⟩]) := by
  rw [Plan.listFrom, Tree.fold_eq]
  simp [Tree.children, List.zipIdx_map, List.foldl_map, Plan.listFrom]

/-- The lines of a step come after those that are there already. -/
theorem listFrom_eq (map : VisibilityMap) (node : Node) (place : Place) (lines : List PlanStep.Line) :
    Plan.listFrom map node (Path.text "." (0 :: place)) place.length lines =
      lines ++ (node.locateFrom (0 :: place)).map fun (path, node) =>
        (PlanStep.ofNode map path node).line := by
  induction node using Tree.induction generalizing place lines with
  | step node ih =>
    have below (lines : List PlanStep.Line) (numbered : Node × Nat)
        (mem : numbered ∈ node.children.zipIdx) :
        Plan.listFrom map numbered.1 (Path.text "." (0 :: place) ++ "." ++ numbered.2.repr)
            (place.length + 1) lines =
          lines ++ (numbered.1.locateFrom (Path.child (0 :: place) numbered.2)).map
            fun (path, node) => (PlanStep.ofNode map path node).line := by
      have deeper := ih numbered.1 (List.fst_mem_of_mem_zipIdx mem) (place ++ [numbered.2]) lines
      rw [List.length_append] at deeper
      rw [← Path.text_child]
      exact deeper
    rw [listFrom_eq_foldl, List.foldl_ext _ _ _ below, List.foldl_append_eq_append,
      Tree.locateFrom_eq, List.map_cons, List.map_flatMap, List.append_assoc]
    rfl

/-- The steps of a plan are listed on one way through the tree. -/
theorem lines_ofNode :
    (Plan.ofNode root config).steps.map (·.line) =
      Plan.listFrom (inferVisibility root config.visibility) root "0" 0 [] := by
  have all := listFrom_eq (inferVisibility root config.visibility) root [] []
  have start : Path.text "." [0] = "0" := rfl
  rw [start, List.length_nil, List.nil_append] at all
  rw [all, Plan.ofNode, Tree.located, Path.root, List.map_map]
  rfl

theorem lookedUpAlike (name : String) : LookedUpAlike root (Plan.ofNode root config) name := by
  have in_tree := root.find?_eq_map name
  have in_plan : (Plan.ofNode root config).step? name =
      (root.occurrences.find? fun (_, node) => node.name == name).map fun (place, node) =>
        .ofNode (inferVisibility root config.visibility) (0 :: place) node := by
    rw [Plan.step?, steps_ofNode_eq_map, List.find?_map]
    rfl
  cases found : root.occurrences.find? fun (_, node) => node.name == name with
  | none =>
    rw [found] at in_tree in_plan
    refine .absent (fun node mem named => ?_) in_tree in_plan
    rw [Tree.steps_eq_map] at mem
    obtain ⟨occurrence, among, rfl⟩ := List.mem_map.1 mem
    simpa [named] using List.find?_eq_none.1 found occurrence among
  | some occurrence =>
    rw [found] at in_tree in_plan
    obtain ⟨named, before, after, split, earlier⟩ := List.find?_eq_some_iff_append.1 found
    refine .first before.length occurrence.1 occurrence.2 _ ?_ ?_ (by simpa using named) ?_ in_tree
      in_plan
    · rw [split]
      simp
    · rw [steps_ofNode_eq_map, split]
      simp
    · rw [split, List.take_left]
      simpa using earlier

end Plan

/-- The occurrences of a node are its places in the tree, each once and in order; the walk comes past
them in this order, the plan has one step for each of them and the graph one vertex, and a name
leads to the same one of them in the tree and in the plan. -/
theorem listings_agree (root : Node) (config : Config) :
    let plan := Backend.dryRun.compile root config
    root.walk = root.occurrences.map (fun (place, node) => (node, place.length)) ∧
    (∀ place node, (place, node) ∈ root.occurrences ↔ root.at? place = some node) ∧
    (root.occurrences.map Prod.fst).Pairwise (· < ·) ∧
    List.Forall₂ (fun (place, node) step => step.Describes root config place node)
      root.occurrences plan.steps ∧
    (plan.steps.map (·.pathText)).Nodup ∧
    (∀ step ∈ plan.steps, step.pathText.toList.count '.' = step.depth) ∧
    (∀ name, LookedUpAlike root plan name) ∧
    List.Forall₂ (fun step vertex => vertex.Shows step) plan.steps (Graph.ofNode root).vertices := by
  intro plan
  refine ⟨root.walk_eq_map, fun place node => Tree.mem_occurrences, root.pairwise_lt_occurrences,
    ?_, ?_, ?_, ?_, ?_⟩
  · exact forall₂_describes root config
  · exact nodup_pathText root config
  · exact count_pathText root config
  · exact lookedUpAlike root config
  · exact forall₂_shows root config

end Workflow
