import Workflow.Predicate.Printer
import Workflow.Tree.Path

/-! The graph of a workflow: its nodes and the edges along which control flows. -/
namespace Workflow.Graph

inductive Shape where
  | step
  | composite
  | plumbing
  | decision
  | pause
deriving DecidableEq, Repr

def shapeOf {α : Type} (kind : Kind α) : Shape :=
  match kind with
  | .route .. => .decision
  | .gate .. => .pause
  | _ => if kind.isZeroCost then .plumbing else if kind.isComposite then .composite else .step

/-- A vertex is identified by the path of its node. -/
structure Vertex where
  path : Path
  name : String
  tag : String
  shape : Shape
  reads : KeySet
  writes : KeySet

structure Edge where
  source : Path
  target : Path
  label : Option String

/-- An identifier made from the path, the same for every rendering. -/
def identifier (path : Path) : String :=
  "n" ++ path.text "_"

def Vertex.ofNode (path : Path) (node : Node) : Vertex :=
  ⟨path, node.name, node.kind.tag, shapeOf node.kind, node.reads, node.writes⟩

/-- What is written at the edges to the steps below, in their order. -/
def edgeLabels {α : Type} (kind : Kind α) : List (Option String) :=
  match kind with
  | .sequence children | .parallel children | .race children => children.map fun _ => none
  | .fallback children =>
    (List.range children.length).map fun i => some ("try " ++ (i + 1).repr)
  | .loop _ bound (some exit) =>
    [some ("until " ++ exit.display ++ " (max " ++ bound.toNat.repr ++ ")")]
  | .loop _ bound none => [some ("x" ++ bound.toNat.repr)]
  | .mapOver _ listKey _ _ => [some ("each " ++ listKey)]
  | .timeout _ deadlineMs => [some (deadlineMs.toNat.repr ++ "ms")]
  | .route _ rules otherwise =>
    (rules.map fun rule => some rule.predicate.display) ++
      otherwise.toList.map fun _ => some "otherwise"
  | .leaf _ | .transform _ | .tap _ | .gate .. | .transfer .. | .capture _ => []

/-- Where the edge to a step comes from: in a sequence from the step before it, else from the parent. -/
def sourceOf {α : Type} (kind : Kind α) (path : Path) (position : Nat) : Path :=
  match kind, position with
  | .sequence _, before + 1 => path.child before
  | _, _ => path

/-- The edges inside of a tree: for each step below the root the edges inside of it, then the one to it. -/
def edgesFrom (root : Node) : Path → List Edge :=
  root.fold fun node below path =>
    ((below.children.zip (edgeLabels node.kind)).zipIdx).flatMap fun ((edges, label), position) =>
      let target := path.child position
      edges target ++ [⟨sourceOf node.kind path position, target, label⟩]

end Graph

structure Graph where
  vertices : List Graph.Vertex
  edges : List Graph.Edge

namespace Graph

def ofNode (root : Node) : Graph where
  vertices := root.located.map fun (path, node) => Vertex.ofNode path node
  edges := edgesFrom root .root

structure Options where
  /-- Whether the keys of each node are shown. -/
  details : Bool
  title : Option String

def keyLine (title : String) (keys : KeySet) : List String :=
  if keys.isEmpty then [] else [title ++ ": " ++ ", ".intercalate keys.toList]

/-- The lines that are shown inside of a vertex. -/
def Vertex.lines (vertex : Vertex) (details : Bool) : List String :=
  (if vertex.shape = .composite then vertex.name ++ " (" ++ vertex.tag ++ ")" else vertex.name) ::
    if details then keyLine "reads" vertex.reads ++ keyLine "writes" vertex.writes else []

end Workflow.Graph
