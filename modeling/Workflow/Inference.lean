import Workflow.Tree.Basic

/-! The visibility class of every node, from its place in the tree. -/
namespace Workflow

/-- The class of a step that does not choose one itself. Plumbing has none; a step that answers is seen
if nothing comes after it; a group of steps stays in the background. -/
def Kind.visibility {α : Type} (kind : Kind α) (after : Bool) (policy : VisibilityPolicy) :
    Visibility :=
  match kind with
  | .transform _ | .tap _ | .capture _ | .route .. => .zeroCost
  | .leaf _ | .gate .. | .transfer .. =>
    if policy = .transparent ∨ !after then .user else .internal
  | _ => if policy = .transparent then .user else .internal

namespace Inference

/-- The classes of a step and of all below it in order, given whether anything comes after it. -/
abbrev Pass := Bool → List (String × Visibility)

/-- Something comes after all steps of a sequence but the last. -/
def inOrder : List Pass → Pass
  | [], _ => []
  | [last], after => last after
  | first :: rest, after => first true ++ inOrder rest after

/-- Whether something comes after the steps below: always inside of what runs side by side or again, never
inside of an arm that control is handed to. -/
def inside : Kind Pass → Pass
  | .sequence passes => inOrder passes
  | .parallel passes => fun _ => passes.flatMap fun pass => pass true
  | .loop pass .. | .mapOver pass .. => fun _ => pass true
  | .fallback passes | .race passes => fun after => passes.flatMap fun pass => pass after
  | .timeout pass _ => pass
  | .route key rules otherwise => fun _ =>
    (Kind.route key rules otherwise).children.flatMap fun pass => pass false
  | .leaf _ | .transform _ | .tap _ | .gate .. | .transfer .. | .capture _ => fun _ => []

def step (policy : VisibilityPolicy) (node : Node) (below : Kind Pass) : Pass := fun after =>
  (node.name, node.contract.visibility.getD (node.kind.visibility after policy)) ::
    inside below after

def classes (policy : VisibilityPolicy) (root : Node) : List (String × Visibility) :=
  root.fold (step policy) false

/-- Of two nodes with one name the more visible one decides. -/
def add (map : VisibilityMap) (entry : String × Visibility) : VisibilityMap :=
  map.insert entry.1 (match map.get? entry.1 with
    | some other => max other entry.2
    | none => entry.2)

end Inference

/-- The class of every name in a tree. -/
def inferVisibility (root : Node) (policy : VisibilityPolicy) : VisibilityMap :=
  (Inference.classes policy root).foldl Inference.add ∅

end Workflow
