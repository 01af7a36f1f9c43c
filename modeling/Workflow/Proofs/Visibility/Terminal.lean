import Mathlib.Data.List.DropRight
import Mathlib.Order.Bounds.Defs
import Workflow.Proofs.Contract.Ledger
import Workflow.Proofs.Visibility.Flattening

/-! The class of a name in closed form: the most visible one among the steps with that name, each of
which is classified by what it is and by the way down to it. -/
namespace Workflow

namespace Kind

variable {α : Type}

def isRoute : Kind α → Bool
  | .route .. => true
  | _ => false

/-- The step says something of its own, unlike a group of steps and unlike plumbing. -/
def answers : Kind α → Bool
  | .leaf _ | .gate .. | .transfer .. => true
  | _ => false

instance (i : Nat) (kind : Kind α) : Decidable (kind.GoesOnAfter i) :=
  match kind with
  | .parallel _ | .loop .. | .mapOver .. => .isTrue trivial
  | .sequence steps => inferInstanceAs (Decidable (i + 1 < steps.length))
  | .leaf _ | .transform _ | .tap _ | .fallback _ | .race _ | .gate .. | .timeout .. | .route .. |
    .transfer .. | .capture _ => .isFalse id

end Kind

namespace Tree

variable {ν : Type}

/-- The edges on the way down to a place: what the step above is, and the position of the child. -/
def edgesTo (tree : Tree ν) : Place → List (Kind (Tree ν) × Nat)
  | [] => []
  | i :: place =>
    (tree.kind, i) :: (tree.children[i]?.map fun child => child.edgesTo place).getD []

/-- Nothing comes after the step: below the last edge out of a route, or below the root if there is
none, no edge leads to a step of a sequence other than the last, or out of a parallel step, a loop
or a step that runs once per item. -/
def Terminal (root : Tree ν) (place : Place) : Prop :=
  ∀ edge ∈ (root.edgesTo place).rtakeWhile fun edge => !edge.1.isRoute, ¬ edge.1.GoesOnAfter edge.2

instance (root : Tree ν) (place : Place) : Decidable (root.Terminal place) :=
  inferInstanceAs (Decidable (∀ edge ∈ _, ¬ _))

/-- The class of a step at a place. What the step chooses itself goes before everything else. -/
def classAt (policy : VisibilityPolicy) (root : Tree ν) (place : Place) (step : Tree ν) :
    Visibility :=
  match step.contract.visibility with
  | some chosen => chosen
  | none =>
    if step.kind.isZeroCost ∨ step.kind.isRoute then .zeroCost
    else if policy = .transparent then .user
    else if step.kind.answers ∧ root.Terminal place then .user
    else .internal

theorem edgesTo_cons {tree child : Tree ν} {i : Nat} (h : tree.children[i]? = some child)
    (place : Place) : tree.edgesTo (i :: place) = (tree.kind, i) :: child.edgesTo place := by
  simp [edgesTo, h]

end Tree

namespace Visibility

instance : Std.IsLinearOrder Visibility where
  le_refl shown := Nat.le_refl shown.rank
  le_trans _ _ _ first second := Nat.le_trans first second
  le_antisymm := by
    intro first second
    cases first <;> cases second <;> decide
  le_total first second := Nat.le_total first.rank second.rank

instance : Std.LawfulOrderMax Visibility where
  max_eq_or := by
    intro first second
    cases first <;> cases second <;> decide
  max_le_iff := by
    intro first second third
    cases first <;> cases second <;> cases third <;> decide

end Visibility

namespace Inference

section

variable {ι : Type} {policy : VisibilityPolicy}

/-- Whether something comes after a child, if it is known whether something comes after the step
above it. -/
def carry {α : Type} (after : Bool) (edge : Kind α × Nat) : Bool :=
  !edge.1.isRoute && (after || edge.1.GoesOnAfter edge.2)

/-- An edge out of a route makes the edges above it count for nothing. -/
theorem foldl_carry_iff {α : Type} (edges : List (Kind α × Nat)) :
    edges.foldl carry false = true ↔
      ∃ edge ∈ edges.rtakeWhile fun edge => !edge.1.isRoute, edge.1.GoesOnAfter edge.2 := by
  induction edges using List.reverseRecOn with
  | nil => simp
  | append_singleton edges edge ih =>
    rw [List.foldl_append, List.foldl_cons, List.foldl_nil, List.rtakeWhile_concat]
    cases route : edge.1.isRoute with
    | true => simp [carry, route]
    | false => simp [carry, route, ih, or_and_right, exists_or]

theorem inOrder_eq (parts : List ι) (f : ι → Pass) (after : Bool) :
    inOrder (parts.map f) after =
      parts.zipIdx.flatMap fun (part, i) => f part (after || decide (i + 1 < parts.length)) := by
  have shifted (start : Nat) : inOrder (parts.map f) after =
      (parts.zipIdx start).flatMap fun (part, i) =>
        f part (after || decide (i + 1 < start + parts.length)) := by
    induction parts generalizing start with
    | nil => rfl
    | cons part parts ih =>
      cases parts with
      | nil => simp [inOrder]
      | cons next parts =>
        have more : start + 1 < start + 1 + (next :: parts).length := by simp
        have length : start + (part :: next :: parts).length =
            start + 1 + (next :: parts).length := by
          simp only [List.length_cons]
          omega
        have numbered : (part :: next :: parts).zipIdx start =
            (part, start) :: (next :: parts).zipIdx (start + 1) := List.zipIdx_cons
        rw [numbered, List.flatMap_cons, length]
        change f part true ++ inOrder ((next :: parts).map f) after =
          f part (after || decide (start + 1 < start + 1 + (next :: parts).length)) ++ _
        rw [decide_eq_true more, Bool.or_true, ih (start + 1)]
  simpa using shifted 0

/-- What comes after a child need not depend on its position. -/
theorem flatMap_carry (kind : Kind ι) {after flag : Bool}
    (uniform : ∀ i, carry after (kind, i) = flag) (f : ι → Pass) :
    (kind.children.zipIdx.flatMap fun (part, i) => f part (carry after (kind, i))) =
      (kind.map f).children.flatMap fun pass => pass flag := by
  simp only [uniform]
  rw [flatMap_zipIdx kind.children fun part => f part flag, Kind.children_map, List.flatMap_map]

/-- Every step below is classified by what comes after it. -/
theorem inside_eq (kind : Kind ι) (f : ι → Pass) (after : Bool) :
    inside (kind.map f) after =
      kind.children.zipIdx.flatMap fun (part, i) => f part (carry after (kind, i)) := by
  have always : (after || true) = true := Bool.or_true after
  have inherited : (after || false) = after := Bool.or_false after
  cases kind with
  | sequence parts => exact inOrder_eq parts f after
  | parallel parts => exact (flatMap_carry (.parallel parts) (fun _ => always) f).symm
  | fallback parts => exact (flatMap_carry (.fallback parts) (fun _ => inherited) f).symm
  | race parts => exact (flatMap_carry (.race parts) (fun _ => inherited) f).symm
  | route key rules otherwise =>
    exact (flatMap_carry (.route key rules otherwise) (fun _ => rfl) f).symm
  | loop body bound exit =>
    rw [flatMap_carry (.loop body bound exit) (fun _ => always) f]
    exact (List.flatMap_singleton ..).symm
  | mapOver body listKey itemKey outputKey =>
    rw [flatMap_carry (.mapOver body listKey itemKey outputKey) (fun _ => always) f]
    exact (List.flatMap_singleton ..).symm
  | timeout body deadline =>
    rw [flatMap_carry (.timeout body deadline) (fun _ => inherited) f]
    exact (List.flatMap_singleton ..).symm
  | leaf | transform | tap | gate | transfer | capture => rfl

/-- Every step is listed with the class that follows from the edges on the way down to it. -/
theorem pass_eq_map (policy : VisibilityPolicy) (root : Node) (after : Bool) :
    pass policy root after =
      root.occurrences.map fun (place, step) =>
        (step.name, step.contract.visibility.getD
          (step.kind.visibility ((root.edgesTo place).foldl carry after) policy)) := by
  induction root using Tree.induction generalizing after with
  | step root ih =>
    rw [pass_eq, step, inside_eq, Tree.occurrences_eq, List.map_cons, List.map_flatMap]
    refine congrArg (List.cons _) (List.flatMap_congr ?_)
    rintro ⟨child, i⟩ mem
    have at_ : root.children[i]? = some child := List.mem_zipIdx_iff_getElem?.1 mem
    change pass policy child (carry after (root.kind, i)) = (child.occurrences.map _).map _
    rw [ih child (List.mem_of_getElem? at_), List.map_map]
    refine List.map_congr_left ?_
    rintro ⟨place, step⟩ -
    simp only [Function.comp_apply, Tree.edgesTo_cons at_, List.foldl_cons]

/-- With nothing after the root, the way down to a step says what its class is. -/
theorem visibility_eq_classAt (policy : VisibilityPolicy) (root : Node) (place : Place)
    (step : Node) :
    step.contract.visibility.getD
        (step.kind.visibility ((root.edgesTo place).foldl carry false) policy) =
      root.classAt policy place step := by
  have terminal : (root.edgesTo place).foldl carry false = !decide (root.Terminal place) := by
    rw [Bool.eq_iff_iff, foldl_carry_iff, Bool.not_eq_true', decide_eq_false_iff_not, Tree.Terminal]
    push Not
    rfl
  rw [terminal, Tree.classAt]
  cases step.contract.visibility with
  | some chosen => rfl
  | none =>
    by_cases shown : policy = .transparent <;> cases step.kind <;>
      simp [Kind.visibility, Kind.isZeroCost, Kind.isRoute, Kind.answers, shown]

/-- The classes of a tree, step by step. -/
theorem classes_eq_map (policy : VisibilityPolicy) (root : Node) :
    classes policy root =
      root.occurrences.map fun (place, step) => (step.name, root.classAt policy place step) := by
  rw [classes]
  change pass policy root false = _
  rw [pass_eq_map]
  exact List.map_congr_left fun (place, step) _ =>
    congrArg (Prod.mk step.name) (visibility_eq_classAt policy root place step)

theorem foldl_merged_some (entries : List (String × Visibility)) (shown : Visibility) :
    entries.foldl merged (some shown) = some ((entries.map Prod.snd).foldl max shown) := by
  induction entries generalizing shown with
  | nil => rfl
  | cons entry rest ih => exact ih (max shown entry.2)

/-- Of the entries of one name the most visible one counts. -/
theorem foldl_merged_none (entries : List (String × Visibility)) :
    entries.foldl merged none = (entries.map Prod.snd).max? := by
  cases entries with
  | nil => rfl
  | cons entry rest => exact foldl_merged_some rest entry.2

end

end Inference

section

variable {root : Node} {policy : VisibilityPolicy} {name : String} {shown : Visibility}

/-- The classes of the steps with a name. -/
def classesOf (policy : VisibilityPolicy) (root : Node) (name : String) : List Visibility :=
  (root.occurrences.filter (·.2.name = name)).map fun (place, step) =>
    root.classAt policy place step

theorem mem_classesOf :
    shown ∈ classesOf policy root name ↔
      ∃ place step, root.at? place = some step ∧ step.name = name ∧
        root.classAt policy place step = shown := by
  simp [classesOf, Tree.mem_occurrences, and_assoc]

theorem get?_inferVisibility (policy : VisibilityPolicy) (root : Node) (name : String) :
    (inferVisibility root policy).get? name = (classesOf policy root name).max? := by
  rw [inferVisibility, Inference.get?_foldl_add, KeyMap.get?_empty, Inference.foldl_merged_none,
    Inference.classes_eq_map, List.filter_map, List.map_map]
  rfl

/-- Marking events takes the same classes as suppressing them. -/
theorem inferVisibility_annotate (root : Node) :
    inferVisibility root .annotate = inferVisibility root .filtered := by
  refine KeyMap.ext_get? fun name => ?_
  have same : classesOf .annotate root name = classesOf .filtered root name := rfl
  rw [get?_inferVisibility, get?_inferVisibility, same]

/-- The names that have a class are those that occur. -/
theorem exists_get?_inferVisibility :
    (∃ shown, (inferVisibility root policy).get? name = some shown) ↔
      ∃ place step, root.at? place = some step ∧ step.name = name := by
  rw [get?_inferVisibility, ← Option.isSome_iff_exists, Option.isSome_iff_ne_none, ne_eq,
    List.max?_eq_none_iff]
  constructor
  · intro nonempty
    obtain ⟨shown, mem⟩ := List.exists_mem_of_ne_nil _ nonempty
    obtain ⟨place, step, at_, named, -⟩ := mem_classesOf.1 mem
    exact ⟨place, step, at_, named⟩
  · intro found
    obtain ⟨place, step, at_, named⟩ := found
    exact List.ne_nil_of_mem (mem_classesOf.2 ⟨place, step, at_, named, rfl⟩)

/-- The names that have a class are those that occur, and the class of a name is the greatest one
among the steps with that name. -/
theorem inferVisibility_closedForm (root : Node) (policy : VisibilityPolicy) (name : String) :
    (name ∈ (inferVisibility root policy).keys ↔
        ∃ place step, root.at? place = some step ∧ step.name = name) ∧
      ∀ shown, (inferVisibility root policy).get? name = some shown ↔
        IsGreatest {shown | ∃ place step, root.at? place = some step ∧ step.name = name ∧
          root.classAt policy place step = shown} shown := by
  refine ⟨?_, fun shown => ?_⟩
  · rw [KeyMap.mem_keys, exists_get?_inferVisibility]
  · have classes (shown : Visibility) : shown ∈ classesOf policy root name ↔
        ∃ place step, root.at? place = some step ∧ step.name = name ∧
          root.classAt policy place step = shown := mem_classesOf
    rw [get?_inferVisibility, List.max?_eq_some_iff]
    simp only [classes]
    rfl

/-- Nothing comes after the arm of a route, whatever the route is part of. -/
example :
    let ask : Node := .mk "ask" .empty (.leaf .empty)
    let pick : Node := .mk "pick" .empty (.route "intent" [] (some ask))
    let root : Node := .mk "again" .empty (.loop (flowOf [ask, pick]) 2 none)
    root.Terminal [0, 1, 0] ∧ ¬ root.Terminal [0, 1] ∧ ¬ root.Terminal [0, 0] ∧
      (inferVisibility root .filtered).get? "ask" = some .user := by
  decide

end

end Workflow
