import Workflow.State

/-! What a result looks at in the state. If states that agree on some keys have the same result, then
it depends on no other key. -/
namespace Workflow.State

/-- Each of the keys is absent from both states, or has the same value in both. -/
def AgreeOn (keys : KeySet) (state other : State) : Prop :=
  ∀ key ∈ keys, state.get? key = other.get? key

theorem AgreeOn.mono {keys more : KeySet} {state other : State} (h : AgreeOn more state other)
    (sub : ∀ key ∈ keys, key ∈ more) : AgreeOn keys state other :=
  fun key mem => h key (sub key mem)

variable {β : Type}

/-- States that agree on the keys have the same result. -/
def DependsOnlyOn (result : State → β) (keys : KeySet) : Prop :=
  ∀ state other, AgreeOn keys state other → result state = result other

/-- Some two states that differ in nothing but the key have different results. -/
def DependsOn (result : State → β) (key : String) : Prop :=
  ∃ state other, (∀ name, name ≠ key → state.get? name = other.get? name) ∧
    result state ≠ result other

theorem DependsOn.mem {result : State → β} {keys : KeySet} {key : String}
    (depends : DependsOn result key) (only : DependsOnlyOn result keys) : key ∈ keys := by
  obtain ⟨state, other, same, different⟩ := depends
  apply Decidable.byContradiction
  intro outside
  apply different
  apply only
  intro name mem
  have ne : name ≠ key := fun eq => outside (eq ▸ mem)
  exact same name ne

end Workflow.State
