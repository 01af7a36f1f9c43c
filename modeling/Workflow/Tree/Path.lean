import Workflow.Tree.Basic

/-! Where each step stands in its tree. -/
namespace Workflow

/-- The positions of children on the way from the root, which itself is at position zero. -/
abbrev Path := List Nat

namespace Path

def root : Path := [0]

def child (path : Path) (position : Nat) : Path :=
  path ++ [position]

/-- The positions in decimal, with a separator between them. -/
def text (separator : String) (path : Path) : String :=
  separator.intercalate (path.map Nat.repr)

end Path

namespace Tree

variable {ν : Type}

/-- Every step with its path, each before those below it. -/
def locateFrom (tree : Tree ν) : Path → List (Path × Tree ν) :=
  tree.fold fun tree below path =>
    (path, tree) :: below.children.zipIdx.flatMap fun (locate, position) =>
      locate (path.child position)

def located (tree : Tree ν) : List (Path × Tree ν) :=
  tree.locateFrom .root

theorem locateFrom_eq (tree : Tree ν) (path : Path) :
    tree.locateFrom path =
      (path, tree) :: tree.children.zipIdx.flatMap fun (child, position) =>
        child.locateFrom (path.child position) := by
  rw [locateFrom, fold_eq]
  simp [children, List.zipIdx_map, List.flatMap_map, locateFrom]

end Tree

end Workflow
