import Workflow.Proofs.Graph.ControlFlow

/-!
Drawing a workflow step by step: a step, then each step below it with the edge that leads there, under
identifiers that grow on the way down. What is drawn is the graph of the workflow.
-/
namespace Workflow.Graph

/-- A vertex under its identifier. -/
structure Box where
  id : String
  name : String
  tag : String
  shape : Shape
  reads : KeySet
  writes : KeySet

/-- An edge between identifiers. -/
structure Arrow where
  source : String
  target : String
  label : Option String

structure Drawing where
  boxes : List Box
  arrows : List Arrow

/-- Adds a step and all that is below it under an identifier. -/
abbrev Draw := String → Drawing → Drawing

namespace Drawing

def box (id : String) (node : Node) (drawing : Drawing) : Drawing :=
  let box := ⟨id, node.name, node.kind.tag, shapeOf node.kind, node.reads, node.writes⟩
  { drawing with boxes := drawing.boxes ++ [box] }

def arrow (source target : String) (label : Option String) (drawing : Drawing) : Drawing :=
  { drawing with arrows := drawing.arrows ++ [⟨source, target, label⟩] }

def childId (id : String) (i : Nat) : String :=
  id ++ "_" ++ i.repr

/-- The child at a position, then an edge to it. -/
def hang (id source : String) (i : Nat) (label : Option String) (draw : Draw) (drawing : Drawing) :
    Drawing :=
  arrow source (childId id i) label (draw (childId id i) drawing)

/-- The first step of a sequence hangs from the sequence, each other one from the step before it. -/
def chain (id : String) (draws : List Draw) (drawing : Drawing) : Drawing :=
  let (_, drawn) := draws.zipIdx.foldl (fun (before, drawing) (draw, i) =>
    (childId id i, hang id before i none draw drawing)) (id, drawing)
  drawn

/-- The steps side by side hang from the step above them. -/
def fan (id : String) (label : Nat → Option String) (draws : List Draw) (drawing : Drawing) :
    Drawing :=
  draws.zipIdx.foldl (fun drawing (draw, i) => hang id id i (label i) draw drawing) drawing

def step (node : Node) (below : Kind Draw) : Draw := fun id drawing =>
  let drawing := drawing.box id node
  match below with
  | .sequence draws => chain id draws drawing
  | .parallel draws | .race draws => fan id (fun _ => none) draws drawing
  | .fallback draws => fan id (fun i => some ("try " ++ (i + 1).repr)) draws drawing
  | .loop draw bound exit =>
    let label :=
      match exit with
      | some exit => "until " ++ exit.display ++ " (max " ++ bound.toNat.repr ++ ")"
      | none => "x" ++ bound.toNat.repr
    hang id id 0 (some label) draw drawing
  | .mapOver draw listKey _ _ => hang id id 0 (some ("each " ++ listKey)) draw drawing
  | .timeout draw deadlineMs => hang id id 0 (some (deadlineMs.toNat.repr ++ "ms")) draw drawing
  | .route _ rules otherwise =>
    let drawn := rules.zipIdx.foldl (fun drawing (rule, i) =>
      hang id id i (some rule.predicate.display) rule.target drawing) drawing
    match otherwise with
    | some draw => hang id id rules.length (some "otherwise") draw drawn
    | none => drawn
  | .leaf _ | .transform _ | .tap _ | .gate .. | .transfer .. | .capture _ => drawing

def draw (node : Node) : Draw :=
  node.fold step

instance : Append Drawing :=
  ⟨fun first second => ⟨first.boxes ++ second.boxes, first.arrows ++ second.arrows⟩⟩

end Drawing

def Vertex.box (vertex : Vertex) : Box :=
  ⟨identifier vertex.path, vertex.name, vertex.tag, vertex.shape, vertex.reads, vertex.writes⟩

def Edge.arrow (edge : Edge) : Arrow :=
  ⟨identifier edge.source, identifier edge.target, edge.label⟩

/-- The graph under its identifiers. -/
def drawing (graph : Graph) : Drawing :=
  ⟨graph.vertices.map (·.box), graph.edges.map (·.arrow)⟩

/-- The part of a graph that stands for a step and all that is below it. -/
def part (node : Node) (path : Path) : Graph where
  vertices := (node.locateFrom path).map fun (path, node) => Vertex.ofNode path node
  edges := edgesFrom node path

namespace Drawing

theorem append_def (first second : Drawing) :
    first ++ second = ⟨first.boxes ++ second.boxes, first.arrows ++ second.arrows⟩ := rfl

/-- Children with their labels, one after another, each hanging from a source of its own. -/
def hangAll (id : String) (source : Nat → String) (parts : List (Draw × Option String)) (first : Nat)
    (drawing : Drawing) : Drawing :=
  (parts.zipIdx first).foldl
    (fun drawing ((draw, label), i) => hang id (source i) i label draw drawing) drawing

theorem hangAll_append (id : String) (source : Nat → String) (parts more : List (Draw × Option String))
    (first : Nat) (drawing : Drawing) :
    hangAll id source (parts ++ more) first drawing =
      hangAll id source more (first + parts.length) (hangAll id source parts first drawing) := by
  rw [hangAll, List.zipIdx_append, List.foldl_append]
  rfl

/-- The step of a sequence before the one at a position, or the sequence itself. -/
def before (id : String) : Nat → String
  | 0 => id
  | i + 1 => childId id i

/-- From where the edges to the children come. -/
def sourceId {α : Type} (kind : Kind α) (id : String) : Nat → String :=
  match kind with
  | .sequence _ => before id
  | _ => fun _ => id

theorem identifier_child (place : Place) (i : Nat) :
    identifier (Path.child (0 :: place) i) = childId (identifier (0 :: place)) i := by
  rw [identifier, Path.text_child, childId, identifier]
  simp only [String.append_assoc]

theorem identifier_sourceOf {α : Type} (kind : Kind α) (place : Place) (i : Nat) :
    identifier (sourceOf kind (0 :: place) i) = sourceId kind (identifier (0 :: place)) i := by
  cases kind with
  | sequence steps =>
    cases i with
    | zero => rfl
    | succ i => exact identifier_child place i
  | _ => rfl

theorem chain_eq (id : String) (draws : List Draw) (drawing : Drawing) :
    chain id draws drawing =
      hangAll id (before id) (draws.map fun draw => (draw, none)) 0 drawing := by
  have rest (i : Nat) (drawing : Drawing) :
      ((draws.zipIdx i).foldl (fun (before, drawing) (draw, i) =>
        (childId id i, hang id before i none draw drawing)) (before id i, drawing)).2 =
        hangAll id (before id) (draws.map fun draw => (draw, none)) i drawing := by
    induction draws generalizing i drawing with
    | nil => rfl
    | cons draw draws ih => exact ih (i + 1) _
  exact rest 0 drawing

/-- The labels of a fan, one for each child. -/
theorem fan_eq {id : String} {label : Nat → Option String} {draws : List Draw}
    {labels : List (Option String)}
    (labelled : ∀ i, labels[i]? = draws[i]?.map fun _ => label i) (drawing : Drawing) :
    fan id label draws drawing = hangAll id (fun _ => id) (draws.zip labels) 0 drawing := by
  have numbered : (draws.zip labels).zipIdx = draws.zipIdx.map fun (draw, i) => ((draw, label i), i) := by
    refine List.ext_getElem? fun i => ?_
    simp only [List.getElem?_zipIdx, List.zip, List.getElem?_zipWith, List.getElem?_map, labelled i]
    cases draws[i]? <;> simp
  rw [fan, hangAll, numbered, List.foldl_map]

/-- Whatever the kind of a step, its children hang with the labels of the kind. -/
theorem step_eq (node : Node) (id : String) (drawing : Drawing) :
    step node (node.kind.map draw) id drawing =
      hangAll id (sourceId node.kind id) ((node.children.map draw).zip (edgeLabels node.kind)) 0
        (drawing.box id node) := by
  rw [Tree.children]
  cases kind : node.kind with
  | sequence steps =>
    have unlabelled : (steps.map draw).map (fun draw => (draw, none)) =
        (steps.map draw).zip (edgeLabels (.sequence steps)) := by
      rw [edgeLabels, List.zip_map', List.map_map]
      rfl
    simp only [Kind.map, step, Kind.children]
    rw [chain_eq, unlabelled]
    rfl
  | parallel steps | race steps =>
    have labelled (i : Nat) : (steps.map fun _ => (none : Option String))[i]? =
        (steps.map draw)[i]?.map fun _ => none := by
      rw [List.getElem?_map, List.getElem?_map, Option.map_map]
      rfl
    simp only [Kind.map, step, Kind.children]
    rw [fan_eq labelled]
    rfl
  | fallback steps =>
    have labelled (i : Nat) : (edgeLabels (.fallback steps))[i]? =
        (steps.map draw)[i]?.map fun _ => some ("try " ++ (i + 1).repr) := by
      by_cases below : i < steps.length <;> simp [edgeLabels, below]
    simp only [Kind.map, step, Kind.children]
    rw [fan_eq labelled]
    rfl
  | loop body bound exit => cases exit <;> rfl
  | mapOver | timeout => rfl
  | route key rules otherwise =>
    have arms : ((rules.map fun rule => Rule.mk rule.predicate (draw rule.target)).zipIdx.foldl
        (fun drawing (rule, i) => hang id id i (some rule.predicate.display) rule.target drawing)
          (drawing.box id node)) =
        hangAll id (fun _ => id) (rules.map fun rule =>
          (draw rule.target, some rule.predicate.display)) 0 (drawing.box id node) := by
      simp [hangAll, List.zipIdx_map, List.foldl_map]
    have labelled : (((rules.map (·.target)) ++ otherwise.toList).map draw).zip
        (edgeLabels (.route key rules otherwise)) =
        (rules.map fun rule => (draw rule.target, some rule.predicate.display)) ++
          otherwise.toList.map fun otherwise => (draw otherwise, some "otherwise") := by
      rw [edgeLabels, List.map_append, List.zip_append (by simp), List.map_map, List.zip_map',
        List.zip_map']
      rfl
    simp only [Kind.map, step, Kind.children]
    rw [arms, labelled, hangAll_append]
    cases otherwise with
    | none => rfl
    | some otherwise =>
      simp only [Option.map_some, List.length_map, Nat.zero_add]
      rfl
  | leaf | transform | tap | gate | transfer | capture => rfl

/-- What the parts draw comes after what is there already. -/
theorem hangAll_eq (place : Place) (source : Nat → Path) (parts : List (Node × Option String))
    (ih : ∀ part ∈ parts, ∀ place drawing, draw part.1 (identifier (0 :: place)) drawing =
      drawing ++ (Graph.part part.1 (0 :: place)).drawing) (first : Nat) (drawing : Drawing) :
    hangAll (identifier (0 :: place)) (fun i => identifier (source i))
        (parts.map fun (child, label) => (draw child, label)) first drawing =
      drawing ++
        { boxes := (parts.zipIdx first).flatMap fun ((child, _), i) =>
            (Graph.part child (Path.child (0 :: place) i)).drawing.boxes
          arrows := (parts.zipIdx first).flatMap fun ((child, label), i) =>
            (Graph.part child (Path.child (0 :: place) i)).drawing.arrows ++
              [(Edge.mk (source i) (Path.child (0 :: place) i) label).arrow] } := by
  induction parts generalizing first drawing with
  | nil => simp [hangAll, append_def]
  | cons part parts rest =>
    obtain ⟨child, label⟩ := part
    have hung : hang (identifier (0 :: place)) (identifier (source first)) first label (draw child)
        drawing =
        drawing ++
          { boxes := (Graph.part child (Path.child (0 :: place) first)).drawing.boxes
            arrows := (Graph.part child (Path.child (0 :: place) first)).drawing.arrows ++
              [(Edge.mk (source first) (Path.child (0 :: place) first) label).arrow] } := by
      have drawn := ih (child, label) List.mem_cons_self (place ++ [first]) drawing
      rw [hang, ← identifier_child]
      refine (congrArg (arrow _ _ _) drawn).trans ?_
      simp [arrow, append_def, Edge.arrow, Path.child]
    have others := rest (fun part mem => ih part (.tail _ mem)) (first + 1)
      (hang (identifier (0 :: place)) (identifier (source first)) first label (draw child) drawing)
    refine others.trans ?_
    rw [hung]
    simp [append_def]

/-- A step, then what is below it. -/
theorem drawing_part (node : Node) (path : Path) :
    (Graph.part node path).drawing =
      { boxes := (Vertex.ofNode path node).box ::
          (node.children.zip (edgeLabels node.kind)).zipIdx.flatMap fun ((child, _), i) =>
            (Graph.part child (path.child i)).drawing.boxes
        arrows := (node.children.zip (edgeLabels node.kind)).zipIdx.flatMap fun ((child, label), i) =>
          (Graph.part child (path.child i)).drawing.arrows ++
            [(Edge.mk (sourceOf node.kind path i) (path.child i) label).arrow] } := by
  have numbered : node.children.zipIdx =
      (node.children.zip (edgeLabels node.kind)).zipIdx.map (Prod.map Prod.fst id) :=
    zipIdx_children node.kind
  rw [Graph.part, Tree.locateFrom_eq, edgesFrom_eq, numbered, Graph.drawing]
  simp [List.map_flatMap, List.flatMap_map, Graph.part, Graph.drawing]

/-- A step adds its part of the graph to what is drawn already. -/
theorem draw_eq (node : Node) (place : Place) (drawing : Drawing) :
    draw node (identifier (0 :: place)) drawing =
      drawing ++ (Graph.part node (0 :: place)).drawing := by
  induction node using Tree.induction generalizing place drawing with
  | step node ih =>
    have one : draw node = step node (node.kind.map draw) := Tree.fold_eq step node
    have sources : sourceId node.kind (identifier (0 :: place)) =
        fun i => identifier (sourceOf node.kind (0 :: place) i) :=
      funext fun i => (identifier_sourceOf node.kind place i).symm
    have parts : (node.children.map draw).zip (edgeLabels node.kind) =
        (node.children.zip (edgeLabels node.kind)).map fun (child, label) => (draw child, label) :=
      List.zip_map_left
    have below : ∀ part ∈ node.children.zip (edgeLabels node.kind), ∀ place drawing,
        draw part.1 (identifier (0 :: place)) drawing =
          drawing ++ (Graph.part part.1 (0 :: place)).drawing :=
      fun part mem => ih part.1 (List.of_mem_zip mem).1
    rw [one, step_eq, sources, parts, hangAll_eq place _ _ below, drawing_part]
    simp [box, append_def, Vertex.box, Vertex.ofNode]

/-- The graph of a workflow is what is drawn from the root. -/
theorem draw_root (root : Node) : draw root "n0" ⟨[], []⟩ = (Graph.ofNode root).drawing := by
  have all := draw_eq root [] ⟨[], []⟩
  have id : identifier [0] = "n0" := rfl
  rw [id] at all
  rw [all]
  rfl

end Drawing

end Workflow.Graph
