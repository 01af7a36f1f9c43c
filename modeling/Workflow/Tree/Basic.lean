import Workflow.Tree.Kind
import Workflow.Visibility

/-! Trees of steps, and recursion over them. -/
namespace Workflow

/-- What a step declares about itself. -/
structure Contract where
  reads : KeySet
  writes : KeySet
  produces : Option Schema
  consumes : Option Schema
  visibility : Option Visibility
deriving DecidableEq

namespace Contract

def empty : Contract := ⟨∅, ∅, none, none, none⟩

instance : Inhabited Contract := ⟨empty⟩

def isEmpty (contract : Contract) : Bool :=
  contract == empty

/-- The reads that count: those of the schema, if there is one. -/
def effectiveReads (contract : Contract) : KeySet :=
  match contract.consumes with
  | some schema => schema.keys
  | none => contract.reads

/-- The writes that count: those of the schema, if there is one. -/
def effectiveWrites (contract : Contract) : KeySet :=
  match contract.produces with
  | some schema => schema.keys
  | none => contract.writes

end Contract

/-- A step with a name of any type and all steps below it. -/
inductive Tree (ν : Type) where
  | mk (name : ν) (contract : Contract) (kind : Kind (Tree ν))

namespace Tree

variable {ν β : Type}

def name : Tree ν → ν
  | .mk name _ _ => name

def contract : Tree ν → Contract
  | .mk _ contract _ => contract

def kind : Tree ν → Kind (Tree ν)
  | .mk _ _ kind => kind

def children (tree : Tree ν) : List (Tree ν) :=
  tree.kind.children

/-- All keys that the step reads, declared or not. -/
def reads (tree : Tree ν) : KeySet :=
  tree.contract.effectiveReads ∪ tree.kind.reads

/-- All keys that the step writes, declared or not. -/
def writes (tree : Tree ν) : KeySet :=
  tree.contract.effectiveWrites ∪ tree.kind.writes

mutual

/-- The result for a tree, from the tree and the results for the steps directly below it. -/
def fold (step : Tree ν → Kind β → β) : Tree ν → β
  | .mk name contract kind => step (.mk name contract kind) (foldKind step kind)

def foldKind (step : Tree ν → Kind β → β) : Kind (Tree ν) → Kind β
  | .leaf spec => .leaf spec
  | .sequence children => .sequence (foldList step children)
  | .parallel children => .parallel (foldList step children)
  | .loop body bound exit => .loop (fold step body) bound exit
  | .transform ops => .transform ops
  | .tap action => .tap action
  | .fallback children => .fallback (foldList step children)
  | .race children => .race (foldList step children)
  | .gate predicate message approvalKey => .gate predicate message approvalKey
  | .mapOver body listKey itemKey outputKey => .mapOver (fold step body) listKey itemKey outputKey
  | .timeout body deadline => .timeout (fold step body) deadline
  | .route key rules otherwise => .route key (foldRules step rules) (foldOption step otherwise)
  | .transfer target condition => .transfer target condition
  | .capture key => .capture key

def foldList (step : Tree ν → Kind β → β) : List (Tree ν) → List β
  | [] => []
  | first :: rest => fold step first :: foldList step rest

def foldRules (step : Tree ν → Kind β → β) : List (Rule (Tree ν)) → List (Rule β)
  | [] => []
  | ⟨predicate, target⟩ :: rest => ⟨predicate, fold step target⟩ :: foldRules step rest

def foldOption (step : Tree ν → Kind β → β) : Option (Tree ν) → Option β
  | none => none
  | some tree => some (fold step tree)

end

theorem foldList_eq_map (step : Tree ν → Kind β → β) (trees : List (Tree ν)) :
    foldList step trees = trees.map (fold step) := by
  induction trees with
  | nil => rfl
  | cons first rest ih => simp [foldList, ih]

theorem foldRules_eq_map (step : Tree ν → Kind β → β) (rules : List (Rule (Tree ν))) :
    foldRules step rules = rules.map fun rule => ⟨rule.predicate, fold step rule.target⟩ := by
  induction rules with
  | nil => rfl
  | cons first rest ih => simp [foldRules, ih]

theorem foldOption_eq_map (step : Tree ν → Kind β → β) (tree : Option (Tree ν)) :
    foldOption step tree = tree.map (fold step) := by
  cases tree <;> rfl

theorem foldKind_eq_map (step : Tree ν → Kind β → β) (kind : Kind (Tree ν)) :
    foldKind step kind = kind.map (fold step) := by
  cases kind <;> simp [foldKind, Kind.map, foldList_eq_map, foldRules_eq_map, foldOption_eq_map]

/-- A fold looks at one step and folds the steps directly below it. -/
theorem fold_eq (step : Tree ν → Kind β → β) (tree : Tree ν) :
    fold step tree = step tree (tree.kind.map (fold step)) := by
  cases tree with
  | mk name contract kind => simp only [fold, Tree.kind, foldKind_eq_map]

theorem sizeOf_lt_of_mem_children {tree child : Tree ν} (h : child ∈ tree.children) :
    sizeOf child < sizeOf tree := by
  obtain ⟨name, contract, kind⟩ := tree
  cases kind <;> simp only [children, Tree.kind, Kind.children] at h
  case route key rules otherwise =>
    rcases List.mem_append.1 h with mem | mem
    · obtain ⟨rule, among, rfl⟩ := List.mem_map.1 mem
      have := List.sizeOf_lt_of_mem among
      have : sizeOf rule.target < sizeOf rule := by cases rule; simp only [Rule.mk.sizeOf_spec]; omega
      simp; omega
    · obtain rfl := Option.mem_toList.1 mem
      simp; omega
  all_goals try (have smaller := List.sizeOf_lt_of_mem h; simp; omega)
  all_goals simp_all <;> omega

/-- What holds of a step as soon as it holds of those directly below holds of all trees. -/
theorem induction {motive : Tree ν → Prop}
    (step : ∀ tree, (∀ child ∈ tree.children, motive child) → motive tree) (tree : Tree ν) :
    motive tree :=
  step tree fun child _ => induction step child
termination_by sizeOf tree
decreasing_by exact sizeOf_lt_of_mem_children ‹_›

/-- Every step with its depth, each before those below it. -/
def walkFrom (tree : Tree ν) : Nat → List (Tree ν × Nat) :=
  tree.fold fun tree below depth =>
    (tree, depth) :: below.children.flatMap fun walk => walk (depth + 1)

def walk (tree : Tree ν) : List (Tree ν × Nat) :=
  tree.walkFrom 0

/-- All steps, each before those below it. -/
def steps (tree : Tree ν) : List (Tree ν) :=
  tree.walk.map (·.1)

def count (tree : Tree ν) : Nat :=
  tree.walk.length

theorem walkFrom_eq (tree : Tree ν) (depth : Nat) :
    tree.walkFrom depth =
      (tree, depth) :: tree.children.flatMap fun child => child.walkFrom (depth + 1) := by
  rw [walkFrom, fold_eq]
  simp [children, List.flatMap_map, walkFrom]

/-- The first step with a given name. -/
def find? [BEq ν] (tree : Tree ν) (name : ν) : Option (Tree ν) :=
  tree.steps.find? fun step => step.name == name

def equal [BEq ν] (left : Tree ν) : Tree ν → Bool :=
  left.fold fun left below right =>
    left.name == right.name && left.contract == right.contract &&
      below.equalWith (fun same part => same part) right.kind

instance [BEq ν] : BEq (Tree ν) := ⟨equal⟩

end Tree

/-- A step of a complete workflow. -/
abbrev Node := Tree String

end Workflow
