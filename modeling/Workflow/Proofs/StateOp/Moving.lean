import Workflow.Proofs.StateOp.Footprint
import Workflow.Proofs.StateOp.Splitting

/-! Copying and renaming. The value arrives at its target, unless a key is renamed to itself: removing the
source comes last, so that the value is lost. -/
namespace Workflow

namespace Working

/-- The value has arrived at the target in the view and in the change so far, and both hold what they held
at all keys but the two. -/
structure Delivers (now next : Working) (source target : String) (value : Json) : Prop where
  view : next.view.get? target = some value
  delta : next.delta.get? target = some value
  view_others : ∀ key, key ≠ source → key ≠ target → next.view.get? key = now.view.get? key
  delta_others : ∀ key, key ≠ source → key ≠ target → next.delta.get? key = now.delta.get? key

end Working

namespace StateOp

/-- The key whose value an operation copies or renames. -/
def source? : StateOp → Option String
  | .copy source _ | .rename source _ => some source
  | _ => none

def RenamesToItself (op : StateOp) : Prop :=
  ∃ key, op = .rename key key

/-- What copying and renaming are meant to do with a value: the source keeps it when it is copied, and is
absent when it is renamed. -/
def Moves (now next : Working) (value : Json) : StateOp → Prop
  | .copy source target =>
    now.Delivers next source target value ∧ next.view.get? source = some value
  | .rename source target =>
    now.Delivers next source target value ∧ (source ≠ target → next.view.get? source = none)
  | _ => True

end StateOp

namespace Working

theorem nullFree_run {state : State} (whole : state.NullFree) (ops : List StateOp) :
    (run ops state).view.NullFree := by
  rw [← merge_applyOps]
  exact whole.merge (applyOps ops state)

theorem run_take_succ {ops : List StateOp} {i : Nat} {op : StateOp} (hop : ops[i]? = some op)
    (state : State) : run (ops.take (i + 1)) state = (run (ops.take i) state).apply op := by
  have prefix_succ : ops.take (i + 1) = ops.take i ++ [op] := by
    rw [List.take_add_one, hop]
    rfl
  rw [prefix_succ]
  exact List.foldl_append

section

variable {working : Working} {source target key : String} {value : Json}

theorem get?_delta_copy (found : working.view.get? source = some value) :
    (working.apply (.copy source target)).delta.get? key =
      if key = target then some value else working.delta.get? key := by
  simp [apply, StateOp.effects, found, write]

theorem get?_delta_rename (found : working.view.get? source = some value) :
    (working.apply (.rename source target)).delta.get? key =
      if key = source then some .null
      else if key = target then some value else working.delta.get? key := by
  simp [apply, StateOp.effects, found, write]

theorem changed_of_found (whole : working.view.NullFree)
    (found : working.view.get? source = some value) :
    State.changed none (some value) = some value := by
  have real : value ≠ .null := fun null => whole source (null ▸ found)
  have held : value.isNull ≠ true := fun null => real (Json.isNull_iff.1 null)
  exact if_neg held

/-- A copy leaves the value at both keys. -/
theorem moves_copy (whole : working.view.NullFree) (found : working.view.get? source = some value) :
    (StateOp.copy source target).Moves working (working.apply (.copy source target)) value := by
  have held := changed_of_found whole found
  have view (key : String) : (working.apply (.copy source target)).view.get? key =
      if key = target then some value else working.view.get? key := by
    rw [view_apply, StateOp.get?_after_copy found, held]
  refine ⟨⟨?_, ?_, ?_, ?_⟩, ?_⟩
  · rw [view, if_pos rfl]
  · rw [get?_delta_copy found, if_pos rfl]
  · intro key _ other
    rw [view, if_neg other]
  · intro key _ other
    rw [get?_delta_copy found, if_neg other]
  · rw [view]
    split
    · rfl
    · exact found

/-- Renaming to another key moves the value there. -/
theorem moves_rename (whole : working.view.NullFree)
    (found : working.view.get? source = some value) (apart : source ≠ target) :
    (StateOp.rename source target).Moves working (working.apply (.rename source target)) value := by
  have held := changed_of_found whole found
  have view (key : String) : (working.apply (.rename source target)).view.get? key =
      if key = source then none else if key = target then some value else working.view.get? key := by
    rw [view_apply, StateOp.get?_after_rename found, held]
  refine ⟨⟨?_, ?_, ?_, ?_⟩, fun _ => ?_⟩
  · rw [view, if_neg apart.symm, if_pos rfl]
  · rw [get?_delta_rename found, if_neg apart.symm, if_pos rfl]
  · intro key other another
    rw [view, if_neg other, if_neg another]
  · intro key other another
    rw [get?_delta_rename found, if_neg other, if_neg another]
  · rw [view, if_pos rfl]

/-- Renaming a key to itself removes it. -/
theorem lost_of_rename_self (found : working.view.get? key = some value) :
    (working.apply (.rename key key)).view.get? key = none ∧
      (working.apply (.rename key key)).delta.get? key = some .null := by
  constructor
  · rw [view_apply, StateOp.get?_after_rename found, if_pos rfl]
  · rw [get?_delta_rename found, if_pos rfl]

end

/-- An operation of a run that copies or renames a value that is there does so, unless it renames a key
to itself: that removes the key and leaves all others as they were. -/
theorem moves_iff {ops : List StateOp} {state : State} {i : Nat} {op : StateOp} {source : String}
    {value : Json} (whole : state.NullFree) (hop : ops[i]? = some op)
    (source_eq : op.source? = some source)
    (found : (run (ops.take i) state).view.get? source = some value) :
    let now := run (ops.take i) state
    let next := run (ops.take (i + 1)) state
    (op.Moves now next value ↔ ¬ op.RenamesToItself) ∧
      (op.RenamesToItself → next.view.get? source = none ∧ next.delta.get? source = some .null ∧
        ∀ key, key ≠ source → next.view.get? key = now.view.get? key ∧
          next.delta.get? key = now.delta.get? key) := by
  intro now next
  have step : next = now.apply op := run_take_succ hop state
  have nulls : now.view.NullFree := nullFree_run whole (ops.take i)
  rw [step]
  cases op with
  | copy own target =>
    obtain rfl : own = source := Option.some.inj source_eq
    have never : ¬ (StateOp.copy own target).RenamesToItself := fun ⟨key, eq⟩ => StateOp.noConfusion eq
    exact ⟨iff_of_true (moves_copy nulls found) never, fun itself => absurd itself never⟩
  | rename own target =>
    obtain rfl : own = source := Option.some.inj source_eq
    by_cases same : own = target
    · subst same
      have itself : (StateOp.rename own own).RenamesToItself := ⟨own, rfl⟩
      obtain ⟨gone, removed⟩ := lost_of_rename_self found
      refine ⟨iff_of_false ?_ (not_not.2 itself), fun _ => ⟨gone, removed, ?_⟩⟩
      · intro moves
        exact absurd (gone.symm.trans moves.1.view) (by simp)
      · intro key other
        have unwritten : key ∉ (StateOp.rename own own).writes := by simp [StateOp.writes, other]
        rw [view_apply]
        exact ⟨StateOp.get?_after_of_not_mem unwritten now.view,
          get?_delta_apply_of_not_mem unwritten now⟩
    · have never : ¬ (StateOp.rename own target).RenamesToItself := by
        rintro ⟨key, eq⟩
        obtain ⟨rfl, rfl⟩ := StateOp.rename.inj eq
        exact same rfl
      exact ⟨iff_of_true (moves_rename nulls found same) never, fun itself => absurd itself never⟩
  | _ => exact absurd source_eq (by simp [StateOp.source?])

section drafts

def draftOnly : State :=
  State.write ∅ "draft" (.string "v1")

theorem nullFree_draftOnly : draftOnly.NullFree :=
  State.nullFree_empty.write "draft" (.string "v1")

theorem moves_iff_draft :
    let ops : List StateOp := [.copy "draft" "final", .rename "final" "title"]
    let op : StateOp := .rename "final" "title"
    let now := run (ops.take 1) draftOnly
    let next := run (ops.take 2) draftOnly
    draftOnly.NullFree ∧ ops[1]? = some op ∧ op.source? = some "final" ∧
      now.view.get? "final" = some (.string "v1") ∧
      (op.Moves now next (.string "v1") ↔ ¬ op.RenamesToItself) ∧
      (op.RenamesToItself → next.view.get? "final" = none ∧ next.delta.get? "final" = some .null ∧
        ∀ key, key ≠ "final" → next.view.get? key = now.view.get? key ∧
          next.delta.get? key = now.delta.get? key) := by
  intro ops op now next
  have hop : ops[1]? = some op := rfl
  have source : op.source? = some "final" := rfl
  have found : now.view.get? "final" = some (.string "v1") := rfl
  exact ⟨nullFree_draftOnly, hop, source, found, moves_iff nullFree_draftOnly hop source found⟩

/-- Renaming a key to itself loses the value. -/
theorem not_moves_rename_self :
    ¬ ∀ (ops : List StateOp) (state : State) (i : Nat) (op : StateOp) (source : String) (value : Json),
      state.NullFree → ops[i]? = some op → op.source? = some source →
        (run (ops.take i) state).view.get? source = some value →
          op.Moves (run (ops.take i) state) (run (ops.take (i + 1)) state) value := by
  intro always
  have moves := always [.rename "draft" "draft"] draftOnly 0 _ "draft" (.string "v1")
    nullFree_draftOnly rfl rfl rfl
  have gone : (run [.rename "draft" "draft"] draftOnly).view.get? "draft" = none := by decide
  have held : (run [.rename "draft" "draft"] draftOnly).view.get? "draft" = some (.string "v1") :=
    moves.1.view
  exact absurd (gone.symm.trans held) (by simp)

end drafts

end Working

end Workflow
