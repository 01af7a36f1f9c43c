import Workflow.StateOp.Basic

/-! The change that operations make: merged into the snapshot, it gives what the last operation
leaves. -/
namespace Workflow

theorem Json.isNull_iff {value : Json} : value.isNull = true ↔ value = .null := by
  cases value <;> simp [isNull]

namespace State

/-- No key holds null; a key without a value is absent. -/
def NullFree (state : State) : Prop :=
  ∀ key, state.get? key ≠ some .null

theorem nullFree_empty : NullFree ∅ := by
  intro key
  simp

theorem mem_keys {state : State} {key : String} :
    key ∈ state.keys ↔ state.get? key ≠ none := by
  rw [keys, KeySet.mem_ofList, KeyMap.mem_keys, Option.ne_none_iff_exists']

/-- What is under a key after a change, from what was there and what the change has for it. -/
def changed (old : Option Json) : Option Json → Option Json
  | none => old
  | some value => if value.isNull then none else some value

theorem get?_write (state : State) (key other : String) (value : Json) :
    (state.write key value).get? other =
      if other = key then changed none (some value) else state.get? other := by
  unfold write changed
  by_cases null : value.isNull = true <;> simp [null]

theorem NullFree.write {state : State} (h : state.NullFree) (key : String) (value : Json) :
    (state.write key value).NullFree := by
  intro other
  rw [get?_write]
  split
  · unfold changed
    by_cases null : value.isNull = true
    · simp [null]
    · simpa [null] using fun eq => null (Json.isNull_iff.2 eq)
  · exact h other

theorem get?_merge (state delta : State) (key : String) :
    (state.merge delta).get? key = changed (state.get? key) (delta.get? key) := by
  obtain ⟨entries, sorted⟩ := delta
  change (entries.foldl (fun state entry => state.write entry.1 entry.2) state).get? key =
    changed (state.get? key) (entries.lookup key)
  induction entries generalizing state with
  | nil => rfl
  | cons entry rest ih =>
    obtain ⟨later, sorted⟩ := List.pairwise_cons.1 sorted
    rw [List.foldl_cons, ih _ sorted, KeyMap.lookup_cons_eq, get?_write]
    by_cases eq : key = entry.1
    · subst eq
      -- The keys are distinct, so that the rest of the change leaves this one alone.
      have once : rest.lookup entry.1 = none := KeyMap.lookup_eq_none_of_lt later
      simp [once, changed]
    · simp only [eq, if_false]

end State

namespace StateOp

/-- The view that the operation leaves. -/
def after (op : StateOp) (view : State) : State :=
  (op.effects view).foldl (fun view effect => view.write effect.1 effect.2) view

section

variable {view : State} {source target key : String} {value : Json}

theorem get?_after_set :
    ((set target value).after view).get? key =
      if key = target then State.changed none (some value) else view.get? key := by
  simp [after, effects, State.get?_write]

theorem get?_after_default :
    ((default target value).after view).get? key =
      if key = target ∧ view.get? target = none then State.changed none (some value)
      else view.get? key := by
  cases found : view.get? target <;> simp [after, effects, KeyMap.contains, State.get?_write, found]

theorem get?_after_copy (found : view.get? source = some value) :
    ((copy source target).after view).get? key =
      if key = target then State.changed none (some value) else view.get? key := by
  simp [after, effects, State.get?_write, found]

theorem after_copy_of_none (absent : view.get? source = none) :
    (copy source target).after view = view := by
  simp [after, effects, absent]

theorem get?_after_rename (found : view.get? source = some value) :
    ((rename source target).after view).get? key =
      if key = source then none
      else if key = target then State.changed none (some value) else view.get? key := by
  simp [after, effects, State.get?_write, found, State.changed, Json.isNull]

theorem after_rename_of_none (absent : view.get? source = none) :
    (rename source target).after view = view := by
  simp [after, effects, absent]

theorem get?_after_drop :
    ((drop target).after view).get? key = if key = target then none else view.get? key := by
  cases found : view.get? target with
  | none =>
    have same : (drop target).after view = view := by
      simp [after, effects, KeyMap.contains, found]
    rw [same]
    split
    · simp_all
    · rfl
  | some value =>
    simp [after, effects, KeyMap.contains, found, State.get?_write, State.changed, Json.isNull]

theorem get?_after_merge {keys : List String} {separator : String} :
    ((merge keys target separator).after view).get? key =
      if key = target then
        some (.string (separator.intercalate ((keys.filterMap view.get?).map Json.display)))
      else view.get? key := by
  simp [after, effects, State.get?_write, State.changed, Json.isNull]

end

/-- Operations only write the keys that they declare. -/
theorem mem_writes_of_mem_effects {op : StateOp} {view : State} {effect : String × Json}
    (h : effect ∈ op.effects view) : effect.1 ∈ op.writes := by
  cases op with
  | set key value | merge keys key separator =>
    obtain rfl := List.mem_singleton.1 h
    simp [writes]
  | default key value | drop key =>
    simp only [effects] at h
    split at h
    · simp_all [writes]
    · simp_all [writes]
  | copy source target =>
    cases found : view.get? source with
    | none => simp [effects, found] at h
    | some value =>
      obtain rfl : effect = (target, value) := by simpa [effects, found] using h
      simp [writes]
  | rename source target =>
    cases found : view.get? source with
    | none => simp [effects, found] at h
    | some value =>
      obtain rfl | rfl : effect = (target, value) ∨ effect = (source, .null) := by
        simpa [effects, found] using h
      · simp [writes]
      · simp [writes]

theorem get?_after_of_not_mem {op : StateOp} {key : String} (h : key ∉ op.writes) (view : State) :
    (op.after view).get? key = view.get? key := by
  apply List.foldlRecOn (motive := fun now : State => now.get? key = view.get? key) _ _ rfl
  intro now held effect mem
  have ne : key ≠ effect.1 := fun eq => h (eq ▸ mem_writes_of_mem_effects mem)
  rw [State.get?_write, if_neg ne, held]

theorem nullFree_after {view : State} (whole : view.NullFree) (op : StateOp) :
    (op.after view).NullFree := by
  apply List.foldlRecOn (motive := State.NullFree) _ _ whole
  intro now whole effect _
  exact whole.write effect.1 effect.2

end StateOp

namespace Working

/-- The change so far turns the snapshot into the view. -/
def Follows (working : Working) (snapshot : State) : Prop :=
  ∀ key, working.view.get? key = State.changed (snapshot.get? key) (working.delta.get? key)

theorem follows_start (snapshot : State) : Follows ⟨snapshot, ∅⟩ snapshot := fun _ => rfl

theorem Follows.write {working : Working} {snapshot : State} (h : working.Follows snapshot)
    (effect : String × Json) : (working.write effect).Follows snapshot := by
  intro key
  simp only [Working.write, State.get?_write, KeyMap.get?_insert]
  by_cases eq : key = effect.1
  · simp only [eq, if_true]
    rfl
  · simpa only [eq, if_false] using h key

theorem Follows.apply {working : Working} {snapshot : State} (h : working.Follows snapshot)
    (op : StateOp) : (working.apply op).Follows snapshot := by
  apply List.foldlRecOn (motive := fun now : Working => now.Follows snapshot) _ _ h
  intro now h effect _
  exact h.write effect

theorem follows_run (ops : List StateOp) (snapshot : State) :
    (run ops snapshot).Follows snapshot := by
  apply List.foldlRecOn (motive := fun now : Working => now.Follows snapshot) _ _ (follows_start snapshot)
  intro now h op _
  exact h.apply op

theorem view_apply (working : Working) (op : StateOp) :
    (working.apply op).view = op.after working.view := by
  unfold apply StateOp.after
  generalize op.effects working.view = effects
  induction effects generalizing working with
  | nil => rfl
  | cons effect rest ih =>
    rw [List.foldl_cons, List.foldl_cons, ih]
    rfl

end Working

/-- Merging the change into the snapshot gives the view that the last operation leaves. -/
theorem merge_applyOps (ops : List StateOp) (state : State) :
    state.merge (applyOps ops state) = (Working.run ops state).view := by
  refine KeyMap.ext_get? fun key => ?_
  rw [State.get?_merge]
  exact (Working.follows_run ops state key).symm

end Workflow
