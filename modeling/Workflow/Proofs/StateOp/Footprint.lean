import Mathlib.Data.List.Basic
import Workflow.Proofs.State.Dependence
import Workflow.Proofs.StateOp.Delta

/-! The keys that operations read and write. A run changes no key but those that are written, and looks
at no key but those that are read or written. -/
namespace Workflow

open State

namespace StateOp

/-- The keys that an operation looks at or changes. What it only writes counts, for whether it writes may
hang on the presence of the key. -/
def footprint (op : StateOp) : KeySet :=
  op.reads ∪ op.writes

theorem get?_footprint {view other : State} {op : StateOp} {key : String}
    (agree : AgreeOn op.footprint view other) (mem : key ∈ op.reads ∨ key ∈ op.writes) :
    view.get? key = other.get? key :=
  agree key (KeySet.mem_union.2 mem)

/-- What an operation does is the same in views that agree on its footprint. -/
theorem effects_congr {view other : State} (op : StateOp)
    (agree : AgreeOn op.footprint view other) : op.effects view = op.effects other := by
  cases op with
  | set key value => rfl
  | default key value =>
    have same : view.contains key = other.contains key :=
      congrArg Option.isSome (get?_footprint agree (.inr (by simp [writes])))
    rw [effects, effects, same]
  | copy source target =>
    have same : view.get? source = other.get? source := get?_footprint agree (.inl (by simp [reads]))
    simp only [effects, same]
  | rename source target =>
    have same : view.get? source = other.get? source := get?_footprint agree (.inl (by simp [reads]))
    simp only [effects, same]
  | drop key =>
    have same : view.contains key = other.contains key :=
      congrArg Option.isSome (get?_footprint agree (.inr (by simp [writes])))
    rw [effects, effects, same]
  | merge keys target separator =>
    have same : keys.filterMap view.get? = keys.filterMap other.get? := by
      apply List.filterMap_congr
      intro key mem
      exact get?_footprint agree (.inl (by simp [reads, mem]))
    simp only [effects, same]

end StateOp

namespace Working

/-- The same change so far, and views that agree on the keys. -/
def Alike (keys : KeySet) (now other : Working) : Prop :=
  AgreeOn keys now.view other.view ∧ now.delta = other.delta

section

variable {keys : KeySet} {now other : Working} {key : String}

theorem Alike.write (h : Alike keys now other) (effect : String × Json) :
    Alike keys (now.write effect) (other.write effect) := by
  obtain ⟨agree, same⟩ := h
  constructor
  · intro key mem
    simp only [Working.write, get?_write, agree key mem]
  · simp only [Working.write, same]

/-- An operation within the keys keeps two runs alike. -/
theorem Alike.apply (h : Alike keys now other) {op : StateOp} (sub : ∀ key ∈ op.footprint, key ∈ keys) :
    Alike keys (now.apply op) (other.apply op) := by
  have same : op.effects now.view = op.effects other.view := op.effects_congr (h.1.mono sub)
  unfold Working.apply
  rw [same]
  clear same
  generalize op.effects other.view = effects
  induction effects generalizing now other with
  | nil => exact h
  | cons effect rest ih => exact ih (h.write effect)

theorem Alike.foldl (h : Alike keys now other) {ops : List StateOp}
    (sub : ∀ op ∈ ops, ∀ key ∈ op.footprint, key ∈ keys) :
    Alike keys (ops.foldl Working.apply now) (ops.foldl Working.apply other) := by
  induction ops generalizing now other with
  | nil => exact h
  | cons op rest ih =>
    obtain ⟨first, later⟩ := List.forall_mem_cons.1 sub
    exact ih (h.apply first) later

/-- An operation adds no key to the change but those that it writes. -/
theorem get?_delta_apply_of_not_mem {op : StateOp} (h : key ∉ op.writes) (working : Working) :
    (working.apply op).delta.get? key = working.delta.get? key := by
  apply List.foldlRecOn (motive := fun now : Working => now.delta.get? key = working.delta.get? key) _ _ rfl
  intro now held effect mem
  have ne : key ≠ effect.1 := fun eq => h (eq ▸ StateOp.mem_writes_of_mem_effects mem)
  rw [Working.write, KeyMap.get?_insert, if_neg ne, held]

theorem get?_delta_foldl_of_not_mem {ops : List StateOp} (h : ∀ op ∈ ops, key ∉ op.writes)
    (working : Working) : (ops.foldl Working.apply working).delta.get? key = working.delta.get? key := by
  apply List.foldlRecOn (motive := fun now : Working => now.delta.get? key = working.delta.get? key) _ _ rfl
  intro now held op mem
  rw [get?_delta_apply_of_not_mem (h op mem), held]

end

end Working

/-- The change that operations make has no key but those that they write, so that merging it leaves all
others alone; and it is the same for states that agree on what the operations read and write. -/
theorem applyOps_footprint (ops : List StateOp) (state : State) :
    let reads := KeySet.unions (ops.map StateOp.reads)
    let writes := KeySet.unions (ops.map StateOp.writes)
    (∀ key ∈ (applyOps ops state).keys, key ∈ writes) ∧
      (∀ key, key ∉ writes → (state.merge (applyOps ops state)).get? key = state.get? key) ∧
      ∀ other, AgreeOn (reads ∪ writes) state other → applyOps ops state = applyOps ops other := by
  intro reads writes
  have unchanged (key : String) (outside : key ∉ writes) : (applyOps ops state).get? key = none := by
    have unwritten : ∀ op ∈ ops, key ∉ op.writes := fun op mem written =>
      outside (KeySet.mem_unions.2 ⟨_, List.mem_map_of_mem mem, written⟩)
    exact Working.get?_delta_foldl_of_not_mem unwritten ⟨state, ∅⟩
  refine ⟨?_, ?_, ?_⟩
  · intro key mem
    apply Decidable.byContradiction
    intro outside
    exact absurd (unchanged key outside) (State.mem_keys.1 mem)
  · intro key outside
    rw [get?_merge, unchanged key outside]
    rfl
  · intro other agree
    have start : Working.Alike (reads ∪ writes) ⟨state, ∅⟩ ⟨other, ∅⟩ := ⟨agree, rfl⟩
    have within : ∀ op ∈ ops, ∀ key ∈ op.footprint, key ∈ reads ∪ writes := by
      intro op mem key inside
      rcases KeySet.mem_union.1 inside with read | written
      · exact KeySet.mem_union.2 (.inl (KeySet.mem_unions.2 ⟨_, List.mem_map_of_mem mem, read⟩))
      · exact KeySet.mem_union.2 (.inr (KeySet.mem_unions.2 ⟨_, List.mem_map_of_mem mem, written⟩))
    exact (start.foldl within).2

section summaries

/-- The draft becomes the final text, and a summary is put together. -/
def summarizing : List StateOp :=
  [.default "tone" (.string "dry"), .rename "draft" "final", .merge ["final", "tone"] "summary" " "]

def draftedState : State :=
  KeyMap.ofList [("draft", .string "v1"), ("tone", .string "warm")]

/-- The same with a key that no operation mentions. -/
def draftedAndNoted : State :=
  KeyMap.insert draftedState "notes" (.string "short")

theorem applyOps_footprint_summarizing :
    let reads := KeySet.unions (summarizing.map StateOp.reads)
    let writes := KeySet.unions (summarizing.map StateOp.writes)
    "summary" ∈ (applyOps summarizing draftedState).keys ∧ "summary" ∈ writes ∧ "notes" ∉ writes ∧
      (draftedAndNoted.merge (applyOps summarizing draftedAndNoted)).get? "notes" =
        draftedAndNoted.get? "notes" ∧
      AgreeOn (reads ∪ writes) draftedState draftedAndNoted ∧
      applyOps summarizing draftedState = applyOps summarizing draftedAndNoted := by
  intro reads writes
  have changed : "summary" ∈ (applyOps summarizing draftedState).keys := by decide
  have outside : "notes" ∉ writes := by decide
  have agree : AgreeOn (reads ∪ writes) draftedState draftedAndNoted := by
    intro key mem
    have ne : key ≠ "notes" := fun eq => absurd (eq ▸ mem) (by decide)
    rw [draftedAndNoted, KeyMap.get?_insert, if_neg ne]
  obtain ⟨within, -, same⟩ := applyOps_footprint summarizing draftedState
  obtain ⟨-, kept, -⟩ := applyOps_footprint summarizing draftedAndNoted
  exact ⟨changed, within "summary" changed, outside, kept "notes" outside, agree,
    same draftedAndNoted agree⟩

end summaries

end Workflow
