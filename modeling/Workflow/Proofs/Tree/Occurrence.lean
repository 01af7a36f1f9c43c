import Mathlib.Data.List.Perm.Basic
import Workflow.Tree.Path

/-! Steps by their place in a tree: the listing in order and the way down from the root name the
same steps. -/
namespace Workflow

/-- Numbers that are not looked at can be left out. -/
theorem flatMap_zipIdx {α β : Type} (items : List α) (f : α → List β) :
    items.zipIdx.flatMap (fun (item, _) => f item) = items.flatMap f := by
  conv_rhs => rw [← List.zipIdx_map_fst 0 items, List.flatMap_map]

/-- The positions of children on the way down from a step. -/
abbrev Place := List Nat

namespace Tree

variable {ν : Type}

/-- The step that is reached through the children at the given positions. -/
def at? (tree : Tree ν) : Place → Option (Tree ν)
  | [] => some tree
  | i :: place => tree.children[i]?.bind fun child => child.at? place

/-- Every step with its place, each before those below it. -/
def occurrences (tree : Tree ν) : List (Place × Tree ν) :=
  tree.fold fun tree below =>
    ([], tree) :: below.children.zipIdx.flatMap fun (inner, i) =>
      inner.map fun (place, step) => (i :: place, step)

/-- Every step with its place, each after those below it. -/
def completions (tree : Tree ν) : List (Place × Tree ν) :=
  tree.fold fun tree below =>
    (below.children.zipIdx.flatMap fun (inner, i) =>
      inner.map fun (place, step) => (i :: place, step)) ++ [([], tree)]

@[simp] theorem at?_nil (tree : Tree ν) : tree.at? [] = some tree := rfl

theorem children_of_sequence {tree : Tree ν} {steps : List (Tree ν)}
    (h : tree.kind = .sequence steps) : tree.children = steps := by
  rw [children, h]
  rfl

theorem at?_cons_eq_some {tree step : Tree ν} {i : Nat} {place : Place} :
    tree.at? (i :: place) = some step ↔
      ∃ child, tree.children[i]? = some child ∧ child.at? place = some step := by
  simp [at?, Option.bind_eq_some_iff]

theorem at?_cons_of_child {tree child : Tree ν} {i : Nat} (h : tree.children[i]? = some child)
    (place : Place) : tree.at? (i :: place) = child.at? place := by
  simp [at?, h]

theorem at?_snoc {root group : Tree ν} {place : Place} {i : Nat}
    (h : root.at? place = some group) : root.at? (place ++ [i]) = group.children[i]? := by
  induction place generalizing root with
  | nil =>
    obtain rfl := Option.some.inj h
    cases child : root.children[i]? <;> simp [at?, child]
  | cons j place ih =>
    obtain ⟨child, hc, h⟩ := at?_cons_eq_some.1 h
    rw [List.cons_append, at?_cons_of_child hc, ih h]

theorem occurrences_eq (tree : Tree ν) :
    tree.occurrences =
      ([], tree) :: tree.children.zipIdx.flatMap fun (child, i) =>
        child.occurrences.map fun (place, step) => (i :: place, step) := by
  rw [occurrences, fold_eq]
  simp [children, List.zipIdx_map, List.flatMap_map, occurrences]

theorem completions_eq (tree : Tree ν) :
    tree.completions =
      (tree.children.zipIdx.flatMap fun (child, i) =>
        child.completions.map fun (place, step) => (i :: place, step)) ++ [([], tree)] := by
  rw [completions, fold_eq]
  simp [children, List.zipIdx_map, List.flatMap_map, completions]

theorem completions_perm_occurrences (tree : Tree ν) : tree.completions.Perm tree.occurrences := by
  induction tree using Tree.induction with
  | step tree ih =>
    rw [completions_eq, occurrences_eq]
    refine (List.perm_append_singleton _ _).trans (List.Perm.cons _ ?_)
    refine List.Perm.flatMap_left _ fun ⟨child, i⟩ h => List.Perm.map _ ?_
    exact ih child (List.fst_mem_of_mem_zipIdx h)

/-- The steps below the root are those of its children, with the position of the child in front. -/
theorem mem_occurrences_cons {tree step : Tree ν} {i : Nat} {place : Place} :
    (i :: place, step) ∈ tree.occurrences ↔
      ∃ child, tree.children[i]? = some child ∧ (place, step) ∈ child.occurrences := by
  rw [occurrences_eq]
  constructor
  · intro h
    obtain ⟨⟨child, j⟩, hj, h⟩ : ∃ numbered ∈ tree.children.zipIdx,
        (i :: place, step) ∈ numbered.1.occurrences.map
          fun (place, step) => (numbered.2 :: place, step) := by
      simpa using h
    obtain ⟨⟨inner, found⟩, mem, eq⟩ := List.mem_map.1 h
    obtain ⟨⟨rfl, rfl⟩, rfl⟩ : (j = i ∧ inner = place) ∧ found = step := by simpa using eq
    exact ⟨child, List.mem_zipIdx_iff_getElem?.1 hj, mem⟩
  · intro given
    obtain ⟨child, hc, h⟩ := given
    refine List.mem_cons_of_mem _ (List.mem_flatMap.2 ⟨(child, i), ?_, ?_⟩)
    · exact List.mem_zipIdx_iff_getElem?.2 hc
    · exact List.mem_map.2 ⟨(place, step), h, rfl⟩

theorem mem_occurrences {tree step : Tree ν} {place : Place} :
    (place, step) ∈ tree.occurrences ↔ tree.at? place = some step := by
  induction place generalizing tree with
  | nil =>
    rw [occurrences_eq]
    simp [eq_comm]
  | cons i place ih => simp only [mem_occurrences_cons, at?_cons_eq_some, ih]

/-- The walk comes past the places one after another. A place is as deep as it is long. -/
theorem walkFrom_eq_map (tree : Tree ν) (depth : Nat) :
    tree.walkFrom depth =
      tree.occurrences.map fun (place, step) => (step, depth + place.length) := by
  induction tree using Tree.induction generalizing depth with
  | step tree ih =>
    rw [walkFrom_eq, occurrences_eq, List.map_cons, List.map_flatMap, ← flatMap_zipIdx]
    refine congrArg (List.cons _) (List.flatMap_congr fun (child, i) mem => ?_)
    have child_mem := List.fst_mem_of_mem_zipIdx mem
    change child.walkFrom (depth + 1) = (child.occurrences.map _).map _
    rw [ih child child_mem, List.map_map]
    refine List.map_congr_left fun (place, step) _ => ?_
    simp only [Function.comp_apply, List.length_cons]
    rw [Nat.add_assoc, Nat.add_comm 1]

theorem walk_eq_map (tree : Tree ν) :
    tree.walk = tree.occurrences.map fun (place, step) => (step, place.length) := by
  rw [walk, walkFrom_eq_map]
  simp only [Nat.zero_add]

theorem steps_eq_map (tree : Tree ν) : tree.steps = tree.occurrences.map Prod.snd := by
  rw [steps, walk_eq_map, List.map_map]
  rfl

/-- The places are in lexicographic order, each once. -/
theorem pairwise_lt_occurrences (tree : Tree ν) :
    (tree.occurrences.map Prod.fst).Pairwise (· < ·) := by
  induction tree using Tree.induction with
  | step tree ih =>
    have ascending : tree.children.zipIdx.Pairwise fun first second => first.2 < second.2 := by
      rw [← List.pairwise_map, List.zipIdx_map_snd]
      exact List.pairwise_lt_range'
    rw [occurrences_eq, List.map_cons, List.map_flatMap, List.pairwise_cons, List.pairwise_flatMap]
    refine ⟨fun place mem => ?root, fun (child, i) mem => ?inside, ascending.imp ?between⟩
    case root =>
      simp only [List.map_map, List.mem_flatMap, List.mem_map] at mem
      obtain ⟨⟨child, i⟩, -, _, -, rfl⟩ := mem
      exact List.nil_lt_cons ..
    case inside =>
      have child_mem := List.fst_mem_of_mem_zipIdx mem
      have below := List.pairwise_map.1 (ih child child_mem)
      rw [List.map_map, List.pairwise_map]
      exact below.imp fun less => List.cons_lt_cons_self.2 less
    case between =>
      intro first second less place mem other mem'
      rw [List.map_map] at mem mem'
      obtain ⟨_, -, rfl⟩ := List.mem_map.1 mem
      obtain ⟨_, -, rfl⟩ := List.mem_map.1 mem'
      exact List.cons_lt_cons_iff.2 (.inl less)

theorem map_fst_walkFrom (tree : Tree ν) (depth : Nat) :
    (tree.walkFrom depth).map (·.1) = tree.steps := by
  rw [walkFrom_eq_map, steps_eq_map, List.map_map]
  rfl

theorem steps_eq (tree : Tree ν) : tree.steps = tree :: tree.children.flatMap steps := by
  rw [steps, walk, walkFrom_eq, List.map_cons, List.map_flatMap]
  simp only [map_fst_walkFrom]

theorem mem_steps {tree step : Tree ν} :
    step ∈ tree.steps ↔ step = tree ∨ ∃ child ∈ tree.children, step ∈ child.steps := by
  rw [steps_eq, List.mem_cons, List.mem_flatMap]

theorem mem_steps_iff_at? {tree step : Tree ν} :
    step ∈ tree.steps ↔ ∃ place, tree.at? place = some step := by
  simp only [steps_eq_map, List.mem_map, Prod.exists, mem_occurrences, exists_eq_right]

/-- Paths are places with the position of the root in front. -/
theorem locateFrom_eq_map (tree : Tree ν) (path : Path) :
    tree.locateFrom path = tree.occurrences.map fun (place, step) => (path ++ place, step) := by
  induction tree using Tree.induction generalizing path with
  | step tree ih =>
    rw [locateFrom_eq, occurrences_eq]
    simp only [List.map_cons, List.append_nil, List.map_flatMap, List.map_map]
    congr 1
    refine List.flatMap_congr fun ⟨child, i⟩ h => ?_
    rw [ih child (List.fst_mem_of_mem_zipIdx h)]
    simp [Path.child, Function.comp_def]

theorem located_eq_map (tree : Tree ν) :
    tree.located = tree.occurrences.map fun (place, step) => (0 :: place, step) :=
  locateFrom_eq_map tree .root

end Tree

end Workflow
