import Workflow.Event.Basic
import Workflow.Proofs.StateOp.Delta

/-! Operations in one go or in two. Both lead to the same state, in which nothing is null, and the
change that is made in one go is the earlier one with the later one written over it. -/
namespace Workflow

namespace State

/-- One change after another is the earlier one with the later one written over it. -/
theorem merge_overwrite (state first second : State) :
    state.merge (first.overwrite second) = (state.merge first).merge second := by
  refine KeyMap.ext_get? fun key => ?_
  rw [get?_merge, get?_merge, get?_merge, KeyMap.get?_overwrite]
  cases second.get? key <;> rfl

theorem NullFree.merge {state : State} (h : state.NullFree) (delta : State) :
    (state.merge delta).NullFree := by
  unfold State.merge
  induction delta.toList generalizing state with
  | nil => exact h
  | cons entry rest ih => exact ih (h.write entry.1 entry.2)

end State

theorem mergedState_append_singleton (events : List Event) (event : Event) :
    mergedState (events ++ [event]) = (mergedState events).merge event.actions.stateDelta := by
  unfold mergedState
  rw [List.foldl_append, List.foldl_cons, List.foldl_nil]

/-- Whatever the events ask for, a key without a value is absent. -/
theorem nullFree_mergedState (events : List Event) : (mergedState events).NullFree := by
  have continued (state : State) (h : state.NullFree) :
      (events.foldl (fun state event => state.merge event.actions.stateDelta) state).NullFree := by
    induction events generalizing state with
    | nil => exact h
    | cons event rest ih => exact ih _ (h.merge event.actions.stateDelta)
  exact continued ∅ State.nullFree_empty

namespace Working

/-- The same view, with the writes so far made over those of an earlier change. -/
def atop (working : Working) (earlier : State) : Working :=
  ⟨working.view, earlier.overwrite working.delta⟩

theorem atop_start (working : Working) : atop ⟨working.view, ∅⟩ working.delta = working := rfl

theorem atop_write (working : Working) (earlier : State) (effect : String × Json) :
    (working.atop earlier).write effect = (working.write effect).atop earlier := by
  have same : (earlier.overwrite working.delta).insert effect.1 effect.2 =
      earlier.overwrite (working.delta.insert effect.1 effect.2) := by
    refine KeyMap.ext_get? fun key => ?_
    rw [KeyMap.get?_insert, KeyMap.get?_overwrite, KeyMap.get?_overwrite, KeyMap.get?_insert]
    split <;> rfl
  simp only [write, atop, same]

/-- An operation looks at the view only, and so does not notice an earlier change. -/
theorem atop_apply (working : Working) (earlier : State) (op : StateOp) :
    (working.atop earlier).apply op = (working.apply op).atop earlier := by
  change (op.effects working.view).foldl write (working.atop earlier) =
    ((op.effects working.view).foldl write working).atop earlier
  generalize op.effects working.view = effects
  induction effects generalizing working with
  | nil => rfl
  | cons effect rest ih => rw [List.foldl_cons, List.foldl_cons, atop_write, ih]

theorem atop_foldl (ops : List StateOp) (working : Working) (earlier : State) :
    ops.foldl apply (working.atop earlier) = (ops.foldl apply working).atop earlier := by
  induction ops generalizing working with
  | nil => rfl
  | cons op rest ih => rw [List.foldl_cons, List.foldl_cons, atop_apply, ih]

/-- More operations begin with what those before them have left. -/
theorem run_append (first second : List StateOp) (state : State) :
    run (first ++ second) state =
      (run second (run first state).view).atop (applyOps first state) := by
  calc run (first ++ second) state
      = second.foldl apply (run first state) := List.foldl_append
    _ = second.foldl apply (atop ⟨(run first state).view, ∅⟩ (applyOps first state)) := by
      rw [applyOps, atop_start]
    _ = (run second (run first state).view).atop (applyOps first state) := atop_foldl ..

end Working

theorem applyOps_append (first second : List StateOp) (state : State) :
    applyOps (first ++ second) state =
      (applyOps first state).overwrite
        (applyOps second (state.merge (applyOps first state))) := by
  rw [merge_applyOps]
  exact congrArg Working.delta (Working.run_append first second state)

/-- Operations in two goes, each with an event of its own, have the effect of one go. An event with
the change that operations make leaves the view in which they have ended, in which nothing is
null. -/
theorem mergedState_split (events : List Event) (first second : List StateOp)
    (author next both : String) :
    let state := mergedState events
    let change := applyOps first state
    let between := mergedState (events ++ [.state author change])
    let later := applyOps second between
    let whole := applyOps (first ++ second) state
    (whole = change.overwrite later ∧
        ∀ key, whole.get? key = (later.get? key).or (change.get? key)) ∧
      mergedState (events ++ [.state author change, .state next later]) =
        mergedState (events ++ [.state both whole]) ∧
      ∀ ops, mergedState (events ++ [.state author (applyOps ops state)]) =
          (Working.run ops state).view ∧
        (Working.run ops state).view.NullFree := by
  intro state change between later whole
  have folded (author : String) (delta : State) :
      mergedState (events ++ [.state author delta]) = state.merge delta :=
    mergedState_append_singleton events (.state author delta)
  have joined : whole = change.overwrite later := by
    have start : between = state.merge change := folded author change
    change applyOps (first ++ second) state = change.overwrite (applyOps second between)
    rw [start]
    exact applyOps_append first second state
  refine ⟨⟨joined, fun key => ?_⟩, ?_, fun ops => ?_⟩
  · rw [joined, KeyMap.get?_overwrite]
  · have twice : mergedState (events ++ [.state author change, .state next later]) =
        between.merge later := by
      rw [List.append_cons]
      exact mergedState_append_singleton _ (.state next later)
    rw [twice, folded both whole, joined, State.merge_overwrite]
    exact congrArg (State.merge · later) (folded author change)
  · have view : mergedState (events ++ [.state author (applyOps ops state)]) =
        (Working.run ops state).view := by
      rw [folded, merge_applyOps]
    exact ⟨view, view ▸ nullFree_mergedState _⟩

end Workflow
