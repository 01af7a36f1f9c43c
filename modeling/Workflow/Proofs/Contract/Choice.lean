import Workflow.Proofs.Tree.Occurrence

/-! Choices between alternatives, and which steps run and are complete on a choice. -/
namespace Workflow

/-- Of the steps below, one runs. -/
def Kind.isExclusive {α : Type} : Kind α → Bool
  | .fallback _ | .race _ | .route .. => true
  | _ => false

/-- The key under which the steps below find their item. -/
def Kind.itemKey? {α : Type} : Kind α → Option String
  | .mapOver _ _ itemKey _ => some itemKey
  | _ => none

theorem Kind.itemKey?_of_isExclusive {α : Type} {kind : Kind α} (h : kind.isExclusive) :
    kind.itemKey? = none := by
  cases kind <;> first | rfl | contradiction

/-- A step of a sequence before the position has the property. -/
def Kind.Earlier {α : Type} (kind : Kind α) (i : Nat) (property : Nat → α → Prop) : Prop :=
  ∃ steps, kind = .sequence steps ∧ ∃ j < i, ∃ step, steps[j]? = some step ∧ property j step

/-- The step at the place is run once per item by a step above it, with the item under the key. -/
def Tree.ItemAbove (root : Node) (place : Place) (key : String) : Prop :=
  ∃ above i rest group, place = above ++ i :: rest ∧ root.at? above = some group ∧
    group.kind.itemKey? = some key

/-- The position of the child that each group of alternatives runs, if any, by the place of the
group. -/
abbrev Choice := Place → Option Nat

namespace Choice

/-- What is chosen at and below a place. -/
def within (choice : Choice) (place : Place) : Choice := fun rest => choice (place ++ rest)

/-- A choice for a tree from one for its root and one for each child. -/
def join (first : Option Nat) (inner : Nat → Choice) : Choice
  | [] => first
  | i :: place => inner i place

/-- The rule holds of every step and what is chosen at and below it. -/
def Obeys (choice : Choice) (root : Node) (rule : Choice → Node → Prop) : Prop :=
  ∀ place step, root.at? place = some step → rule (choice.within place) step

/-- A group of alternatives runs one child, if it has any. -/
def SelectsOne (choice : Choice) (group : Node) : Prop :=
  group.kind.isExclusive → group.children ≠ [] → ∃ i < group.children.length, choice [] = some i

/-- Every group of alternatives runs one child, if it has any. -/
def Complete (choice : Choice) (root : Node) : Prop :=
  choice.Obeys root SelectsOne

/-- The step at the place runs: each group of alternatives above it has chosen the way to it. -/
def Runs (choice : Choice) (root : Node) (place : Place) : Prop :=
  ∀ above i rest group, place = above ++ i :: rest → root.at? above = some group →
    group.kind.isExclusive → choice above = some i

/-- A step that is complete once the root is, and not confined to an item, has the property. -/
def Completes (choice : Choice) (root : Node) (fact : Choice → Node → Prop) : Prop :=
  ∃ place step, root.at? place = some step ∧ choice.Runs root place ∧
    (∀ item, ¬ root.ItemAbove place item) ∧ fact (choice.within place) step

/-- The step at the first place is complete before the one at the second begins: it is, or lies in,
an earlier step of a sequence around both, and is not confined to an item there. -/
inductive CompleteBefore : Choice → Node → Place → Place → Prop where
  | earlier {choice : Choice} {root sibling : Node} {children : List Node} {i j : Nat}
      {inner place : Place} :
      root.kind = .sequence children → i < j → children[i]? = some sibling →
      (choice.within [i]).Runs sibling inner → (∀ item, ¬ sibling.ItemAbove inner item) →
      CompleteBefore choice root (i :: inner) (j :: place)
  | inside {choice : Choice} {root child : Node} {i : Nat} {earlier place : Place} :
      root.children[i]? = some child → (root.kind.isExclusive → choice [] = some i) →
      CompleteBefore (choice.within [i]) child earlier place →
      CompleteBefore choice root (i :: earlier) (i :: place)

/-- A step that is complete before the one at the place has the property. -/
def Before (choice : Choice) (root : Node) (place : Place) (fact : Choice → Node → Prop) : Prop :=
  ∃ earlier step, choice.CompleteBefore root earlier place ∧ root.at? earlier = some step ∧
    fact (choice.within earlier) step

@[simp] theorem within_within (choice : Choice) (outer inner : Place) :
    (choice.within outer).within inner = choice.within (outer ++ inner) := by
  funext rest
  simp [within]

end Choice

section

variable {root child : Node} {choice : Choice} {fact : Choice → Node → Prop} {i : Nat}
  {place : Place}

@[simp] theorem Tree.not_itemAbove_nil {key : String} : ¬ root.ItemAbove [] key := by
  intro found
  obtain ⟨above, i, rest, group, h, -⟩ := found
  simp at h

theorem Tree.itemAbove_cons (h : root.children[i]? = some child) {key : String} :
    root.ItemAbove (i :: place) key ↔
      root.kind.itemKey? = some key ∨ child.ItemAbove place key := by
  constructor
  · intro found
    obtain ⟨above, j, rest, group, eq, at_, item⟩ := found
    cases above with
    | nil =>
      obtain rfl : root = group := by simpa using at_
      exact .inl item
    | cons k above =>
      obtain ⟨rfl, rfl⟩ : i = k ∧ place = above ++ j :: rest := by simpa using eq
      exact .inr ⟨above, j, rest, group, rfl, by rwa [Tree.at?_cons_of_child h] at at_, item⟩
  · intro found
    rcases found with item | ⟨above, j, rest, group, rfl, at_, item⟩
    · exact ⟨[], i, place, root, rfl, rfl, item⟩
    · exact ⟨i :: above, j, rest, group, rfl, by rwa [Tree.at?_cons_of_child h], item⟩

namespace Choice

@[simp] theorem runs_nil : choice.Runs root [] := by
  intro above i rest group h
  simp at h

theorem runs_cons (h : root.children[i]? = some child) :
    choice.Runs root (i :: place) ↔
      (root.kind.isExclusive → choice [] = some i) ∧ (choice.within [i]).Runs child place := by
  constructor
  · intro runs
    refine ⟨fun exclusive => runs [] i place root rfl rfl exclusive, ?_⟩
    intro above j rest group same at_ exclusive
    subst same
    exact runs (i :: above) j rest group rfl (by rwa [Tree.at?_cons_of_child h]) exclusive
  · intro found above j rest group eq at_ exclusive
    obtain ⟨here, runs⟩ := found
    cases above with
    | nil =>
      obtain ⟨rfl, rfl⟩ : i = j ∧ place = rest := by simpa using eq
      obtain rfl : root = group := by simpa using at_
      exact here exclusive
    | cons k above =>
      obtain ⟨rfl, rfl⟩ : i = k ∧ place = above ++ j :: rest := by simpa using eq
      exact runs above j rest group rfl (by rwa [Tree.at?_cons_of_child h] at at_) exclusive

theorem obeys_iff {rule : Choice → Node → Prop} :
    choice.Obeys root rule ↔
      rule choice root ∧
        ∀ i child, root.children[i]? = some child → (choice.within [i]).Obeys child rule := by
  constructor
  · intro obeys
    refine ⟨obeys [] root rfl, fun i child h place step at_ => ?_⟩
    exact obeys (i :: place) step (by rwa [Tree.at?_cons_of_child h])
  · intro found place step at_
    obtain ⟨here, obeys⟩ := found
    cases place with
    | nil =>
      obtain rfl : root = step := by simpa using at_
      exact here
    | cons i place =>
      obtain ⟨child, h, at_⟩ := Tree.at?_cons_eq_some.1 at_
      exact obeys i child h place step at_

theorem Complete.inner (complete : choice.Complete root) (h : root.children[i]? = some child) :
    (choice.within [i]).Complete child :=
  (obeys_iff.1 complete).2 i child h

theorem complete_first (root : Node) : Complete (fun _ => some 0) root := by
  intro place group _ _ nonempty
  exact ⟨0, List.length_pos_iff.2 nonempty, rfl⟩

/-- Choices for the children are put together to one for the whole tree. -/
theorem exists_complete (first : Option Nat) (property : Nat → Node → Choice → Prop)
    (here : SelectsOne (fun _ => first) root)
    (each : ∀ i child, root.children[i]? = some child →
      ∃ choice : Choice, choice.Complete child ∧ property i child choice) :
    ∃ choice : Choice, choice.Complete root ∧ choice [] = first ∧
      ∀ i child, root.children[i]? = some child → property i child (choice.within [i]) := by
  have total : ∀ i, ∃ choice : Choice, ∀ child, root.children[i]? = some child →
      choice.Complete child ∧ property i child choice := by
    intro i
    cases h : root.children[i]? with
    | none => exact ⟨fun _ => none, by simp⟩
    | some child =>
      obtain ⟨choice, holds⟩ := each i child h
      exact ⟨choice, by simpa using holds⟩
  choose inner holds using total
  exact ⟨join first inner, obeys_iff.2 ⟨here, fun i child h => (holds i child h).1⟩, rfl,
    fun i child h => (holds i child h).2⟩

/-- A step that is complete once the root is is the root, or is complete once a running child is. -/
theorem completes_iff :
    choice.Completes root fact ↔
      fact choice root ∨ root.kind.itemKey? = none ∧ ∃ i child, root.children[i]? = some child ∧
        (root.kind.isExclusive → choice [] = some i) ∧
          (choice.within [i]).Completes child fact := by
  constructor
  · intro found
    obtain ⟨place, step, at_, runs, confined, holds⟩ := found
    cases place with
    | nil =>
      obtain rfl : root = step := by simpa using at_
      exact .inl holds
    | cons i place =>
      obtain ⟨child, h, at_⟩ := Tree.at?_cons_eq_some.1 at_
      simp only [Tree.itemAbove_cons h, not_or] at confined
      obtain ⟨here, runs⟩ := (runs_cons h).1 runs
      refine .inr ⟨Option.eq_none_iff_forall_ne_some.2 fun item => (confined item).1, i, child, h,
        here, place, step, at_, runs, fun item => (confined item).2, ?_⟩
      simpa using holds
  · intro found
    rcases found with holds | ⟨free, i, child, h, here, place, step, at_, runs, confined, holds⟩
    · exact ⟨[], root, rfl, runs_nil, fun _ => Tree.not_itemAbove_nil, holds⟩
    · refine ⟨i :: place, step, by rwa [Tree.at?_cons_of_child h], (runs_cons h).2 ⟨here, runs⟩,
        fun item => ?_, by simpa using holds⟩
      simp [Tree.itemAbove_cons h, free, confined item]

@[simp] theorem not_before_nil : ¬ choice.Before root [] fact := by
  intro h
  obtain ⟨earlier, step, before, -⟩ := h
  cases before

/-- Before a child that runs begins, the earlier children of a sequence are complete, and inside of
the child what is complete there. -/
theorem before_cons (h : root.children[i]? = some child)
    (here : root.kind.isExclusive → choice [] = some i) :
    choice.Before root (i :: place) fact ↔
      root.kind.Earlier i (fun j sibling => (choice.within [j]).Completes sibling fact) ∨
      (choice.within [i]).Before child place fact := by
  constructor
  · intro found
    obtain ⟨earlier, step, before, at_, holds⟩ := found
    cases before with
    | @earlier _ _ sibling children j _ inner _ kind lt hs runs confined =>
      have hs' : root.children[j]? = some sibling := by rwa [Tree.children_of_sequence kind]
      rw [Tree.at?_cons_of_child hs'] at at_
      exact .inl ⟨children, kind, j, lt, sibling, hs, inner, step, at_, runs, confined,
        by simpa using holds⟩
    | @inside _ _ other _ earlier _ h' _ before =>
      obtain rfl : child = other := Option.some.inj (h.symm.trans h')
      rw [Tree.at?_cons_of_child h] at at_
      exact .inr ⟨earlier, step, before, at_, by simpa using holds⟩
  · intro found
    rcases found with ⟨children, kind, j, lt, sibling, hs, inner, step, at_, runs, confined, holds⟩ |
      ⟨earlier, step, before, at_, holds⟩
    · have hs' : root.children[j]? = some sibling := by rwa [Tree.children_of_sequence kind]
      refine ⟨j :: inner, step, .earlier kind lt hs runs confined, ?_, by simpa using holds⟩
      rwa [Tree.at?_cons_of_child hs']
    · refine ⟨i :: earlier, step, .inside h here before, ?_, by simpa using holds⟩
      rwa [Tree.at?_cons_of_child h]

end Choice

end

end Workflow
