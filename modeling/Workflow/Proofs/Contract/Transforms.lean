import Workflow.Proofs.Contract.MissingKeys
import Workflow.Proofs.StateOp.Delta

/-! Transforms one after another, and what the check promises about the keys that they find. -/
namespace Workflow

namespace StateOp

/-- The operation counts as one that writes the key, and leaves the key absent: it takes the key
away, writes null, or finds no value to write. -/
def LeavesAbsent (view : State) (key : String) : StateOp → Prop
  | .set own value => key = own ∧ value = .null
  | .default own value => key = own ∧ value = .null ∧ ¬ view.contains key
  | .copy source target => key = target ∧ ¬ view.contains source ∧ ¬ view.contains key
  | .rename source target =>
    key = source ∨ key = target ∧ ¬ view.contains source ∧ ¬ view.contains key
  | .drop own => key = own
  | .merge .. => False

theorem leavesAbsent_iff {op : StateOp} {view : State} {key : String} (whole : view.NullFree) :
    op.LeavesAbsent view key ↔ key ∈ op.writes ∧ (op.after view).get? key = none := by
  have null (value : Json) : State.changed none (some value) = none ↔ value = .null := by
    rw [← Json.isNull_iff]
    by_cases null : value.isNull = true <;> simp [State.changed, null]
  have held {name : String} {value : Json} (found : view.get? name = some value) :
      value ≠ .null := by
    intro same
    subst same
    exact whole name found
  cases op with
  | set own value =>
    rw [get?_after_set]
    by_cases eq : key = own <;> simp [LeavesAbsent, writes, null, eq]
  | default own value =>
    rw [get?_after_default]
    by_cases eq : key = own
    · cases found : view.get? own <;> simp [LeavesAbsent, writes, KeyMap.contains, null, found, eq]
    · simp [LeavesAbsent, writes, eq]
  | copy source target =>
    by_cases eq : key = target
    · cases found : view.get? source with
      | none =>
        rw [after_copy_of_none found]
        simp [LeavesAbsent, writes, KeyMap.contains, found, eq]
      | some value =>
        rw [get?_after_copy found]
        simp [LeavesAbsent, writes, KeyMap.contains, null, held found, found, eq]
    · simp [LeavesAbsent, writes, eq]
  | rename source target =>
    cases found : view.get? source with
    | none =>
      rw [after_rename_of_none found]
      by_cases gone : key = source
      · simp [LeavesAbsent, writes, found, gone]
      · simp [LeavesAbsent, writes, KeyMap.contains, found, gone]
    | some value =>
      rw [get?_after_rename found]
      by_cases gone : key = source
      · simp [LeavesAbsent, writes, gone]
      · by_cases eq : key = target <;>
          simp [LeavesAbsent, writes, KeyMap.contains, null, held found, found, gone, eq]
  | drop own =>
    rw [get?_after_drop]
    by_cases eq : key = own <;> simp [LeavesAbsent, writes, eq]
  | merge keys target separator =>
    rw [get?_after_merge]
    by_cases eq : key = target <;> simp [LeavesAbsent, writes, eq]

end StateOp

/-- An operation of a run, with the position of its transform and the view in which it runs. -/
structure Running where
  transform : Nat
  op : StateOp
  view : State

namespace Running

/-- The operations of one transform, each with the view that those before it leave. -/
def within (transform : Nat) : List StateOp → Working → List Running
  | [], _ => []
  | op :: rest, working =>
    ⟨transform, op, working.view⟩ :: within transform rest (working.apply op)

/-- The operations of transforms from a position on. The change that a transform makes is merged
into the state before the next one runs. -/
def across (transform : Nat) : List (List StateOp) → State → List Running
  | [], _ => []
  | ops :: rest, state =>
    within transform ops ⟨state, ∅⟩ ++
      across (transform + 1) rest (state.merge (applyOps ops state))

/-- Each operation runs in the view that the one before it leaves. -/
def Chained : State → List Running → State → Prop
  | start, [], final => start = final
  | start, now :: rest, final => now.view = start ∧ Chained (now.op.after start) rest final

section

variable {start final : State} {before after : List Running} {now : Running}

theorem chained_append :
    Chained start (before ++ after) final ↔
      ∃ middle, Chained start before middle ∧ Chained middle after final := by
  induction before generalizing start with
  | nil => simp [Chained]
  | cons first rest ih => simp [Chained, ih, and_assoc]

theorem chained_within (transform : Nat) (ops : List StateOp) (working : Working) :
    Chained working.view (within transform ops working) (ops.foldl Working.apply working).view := by
  induction ops generalizing working with
  | nil => rfl
  | cons op rest ih =>
    refine ⟨rfl, ?_⟩
    rw [← Working.view_apply]
    exact ih (working.apply op)

/-- The operations see each other's effects also from one transform to the next. -/
theorem chained_across (transform : Nat) (transforms : List (List StateOp)) (state : State) :
    ∃ final, Chained state (across transform transforms state) final := by
  induction transforms generalizing transform state with
  | nil => exact ⟨state, rfl⟩
  | cons ops rest ih =>
    obtain ⟨final, chained⟩ := ih (transform + 1) (state.merge (applyOps ops state))
    refine ⟨final, chained_append.2 ⟨_, chained_within transform ops ⟨state, ∅⟩, ?_⟩⟩
    rw [merge_applyOps] at chained ⊢
    exact chained

/-- A key that was there at the start or counts as written, and is absent at the end, has been left
absent by the last operation that counts as one that writes it. -/
theorem exists_leavesAbsent {key : String} (whole : start.NullFree)
    (chained : Chained start before final) (absent : final.get? key = none)
    (source : start.get? key ≠ none ∨ ∃ earlier ∈ before, key ∈ earlier.op.writes) :
    ∃ first left rest, before = first ++ left :: rest ∧ left.op.LeavesAbsent left.view key ∧
      ∀ later ∈ rest, key ∉ later.op.writes := by
  induction before generalizing start with
  | nil =>
    obtain rfl : start = final := chained
    rcases source with there | ⟨earlier, mem, -⟩
    · exact absurd absent there
    · exact absurd mem List.not_mem_nil
  | cons now rest ih =>
    obtain ⟨rfl, chained⟩ := chained
    -- If the key is there after this operation, or written later, a later one has left it absent.
    by_cases later : (now.op.after now.view).get? key ≠ none ∨
        ∃ earlier ∈ rest, key ∈ earlier.op.writes
    · obtain ⟨first, left, others, rfl, leaves, none⟩ :=
        ih (StateOp.nullFree_after whole now.op) chained later
      exact ⟨now :: first, left, others, rfl, leaves, none⟩
    · push Not at later
      obtain ⟨gone, unwritten⟩ := later
      refine ⟨[], now, rest, rfl, (StateOp.leavesAbsent_iff whole).2 ⟨?_, gone⟩, unwritten⟩
      by_contra other
      rw [StateOp.get?_after_of_not_mem other] at gone
      rcases source with there | ⟨earlier, mem, writes⟩
      · exact there gone
      · rcases List.mem_cons.1 mem with rfl | mem
        · exact other writes
        · exact unwritten earlier mem writes

theorem map_op_within (transform : Nat) (ops : List StateOp) (working : Working) :
    (within transform ops working).map (·.op) = ops := by
  induction ops generalizing working with
  | nil => rfl
  | cons op rest ih => simp [within, ih]

theorem transform_within {transform : Nat} {ops : List StateOp} {working : Working}
    (h : now ∈ within transform ops working) : now.transform = transform := by
  induction ops generalizing working with
  | nil => simp [within] at h
  | cons op rest ih =>
    rcases List.mem_cons.1 h with rfl | mem
    · rfl
    · exact ih mem

private theorem mem_or_of_append_eq {α : Type} {first second before after : List α} {now : α}
    (h : first ++ second = before ++ now :: after) :
    now ∈ first ∨ ∃ more, before = first ++ more ∧ second = more ++ now :: after := by
  rcases List.append_eq_append_iff.1 h with ⟨more, eq, tail⟩ | ⟨more, eq, tail⟩
  · exact .inr ⟨more, eq, tail⟩
  · cases more with
    | nil => exact .inr ⟨[], by simpa using eq.symm, tail.symm⟩
    | cons next rest =>
      obtain ⟨rfl, -⟩ : now = next ∧ _ := by simpa using tail
      exact .inl (by simp [eq])

/-- An operation stands in its own transform, after all operations of the transforms before. -/
theorem position_of_across {transform : Nat} {transforms : List (List StateOp)} {state : State}
    (run : across transform transforms state = before ++ now :: after) :
    ∃ i ops, now.transform = transform + i ∧ transforms[i]? = some ops ∧ now.op ∈ ops ∧
      ∀ j < i, ∀ others, transforms[j]? = some others → ∀ op ∈ others,
        ∃ earlier ∈ before, earlier.op = op := by
  induction transforms generalizing transform state before with
  | nil => simp [across] at run
  | cons ops rest ih =>
    rw [across] at run
    have own := map_op_within transform ops ⟨state, ∅⟩
    rcases mem_or_of_append_eq run with mem | ⟨more, rfl, tail⟩
    · refine ⟨0, ops, transform_within mem, rfl, ?_, fun j lt => absurd lt (Nat.not_lt_zero j)⟩
      exact own ▸ List.mem_map_of_mem mem
    · obtain ⟨i, inner, position, at_, mem, all⟩ := ih tail
      refine ⟨i + 1, inner, by omega, at_, mem, fun j lt others hj op among => ?_⟩
      cases j with
      | zero =>
        obtain rfl : ops = others := by simpa using hj
        rw [← own] at among
        obtain ⟨earlier, mem, eq⟩ := List.mem_map.1 among
        exact ⟨earlier, List.mem_append_left _ mem, eq⟩
      | succ j =>
        obtain ⟨earlier, mem, eq⟩ := all j (by omega) others hj op among
        exact ⟨earlier, List.mem_append_right _ mem, eq⟩

end

end Running

/-- The operations of a transform; other steps have none. -/
def Tree.ops (step : Node) : List StateOp :=
  match step.kind with
  | .transform ops => ops
  | _ => []

def Tree.IsTransform (step : Node) : Prop :=
  ∃ ops, step.kind = .transform ops

section

variable {step : Node} {key : String}

theorem mem_demand_of_mem_reads {op : StateOp} (mem : op ∈ step.ops) (reads : key ∈ op.reads) :
    key ∈ step.demand := by
  obtain ⟨name, contract, kind⟩ := step
  cases kind with
  | transform ops =>
    have own : key ∈ (Kind.transform (α := Node) ops).reads :=
      KeySet.mem_unions.2 ⟨op.reads, List.mem_map_of_mem mem, reads⟩
    rw [Node.demand, KeySet.mem_insertAll, Tree.reads, KeySet.mem_union]
    exact .inr (.inr own)
  | _ => exact absurd mem List.not_mem_nil

theorem ensures_transform (transform : step.IsTransform) :
    step.Ensures key ↔
      key ∈ step.contract.effectiveWrites ∨ ∃ op ∈ step.ops, key ∈ op.writes := by
  obtain ⟨name, contract, kind⟩ := step
  obtain ⟨ops, kind⟩ := transform
  obtain rfl : _ = Kind.transform ops := kind
  rw [Tree.ensures_of_all (by simp [Tree.kind, Kind.isExclusive]) rfl]
  simp [Tree.children, Tree.kind, Kind.children, Tree.writes, Tree.contract, Tree.ops, Kind.writes]

end

/-- Why an operation may find a key absent: the last operation before it that counts as one that
writes the key has left it absent, or there is none and the key is external or only declared. -/
def Running.Excused (steps : List Node) (state : State) (before : List Running) (now : Running)
    (key : String) : Prop :=
  (∃ first left rest, before = first ++ left :: rest ∧ left.op.LeavesAbsent left.view key ∧
      ∀ later ∈ rest, key ∉ later.op.writes) ∨
    ¬ state.contains key ∧ (∀ earlier ∈ before, key ∉ earlier.op.writes) ∧
      (isExternalKey key ∨ ∃ i < now.transform, ∃ step, steps[i]? = some step ∧
        key ∈ step.contract.effectiveWrites)

/-- After a check without errors, the keys that a step of a sequence of transforms asks for are there
from the start, external, or counted as written by a transform before it. -/
theorem sources_of_no_errors {root step : Node} {steps : List Node} {seed : KeySet} {key : String}
    {i : Nat} (sequence : root.kind = .sequence steps)
    (transforms : ∀ step ∈ steps, step.IsTransform)
    (clean : Diagnostic.errors (checkWith root seed) = []) (hs : steps[i]? = some step)
    (demanded : key ∈ step.demand) :
    key ∈ seed ∨ isExternalKey key ∨ ∃ j < i, ∃ sibling, steps[j]? = some sibling ∧
      (key ∈ sibling.contract.effectiveWrites ∨ ∃ op ∈ sibling.ops, key ∈ op.writes) := by
  by_cases external : isExternalKey key
  · exact .inr (.inl external)
  have hc : root.children[i]? = some step := by rwa [Tree.children_of_sequence sequence]
  have at_ : root.at? [i] = some step := (Tree.at?_cons_of_child hc []).trans (Tree.at?_nil step)
  have available := available_of_no_errors clean at_ demanded external
  rw [Availability.availableAt_cons hc, Availability.availableAt_nil, sequence] at available
  rcases Availability.mem_entering.1 available with seeded | item | earlier
  · exact .inl seeded
  · simp [Kind.itemKey?] at item
  · obtain ⟨same, kind, j, lt, sibling, hj, ensures⟩ := earlier
    obtain rfl : steps = same := by simpa using kind
    have transform := transforms sibling (List.mem_of_getElem? hj)
    exact .inr (.inr ⟨j, lt, sibling, hj, (ensures_transform transform).1 ensures⟩)

/-- After a check without errors, every operation of a sequence of transforms finds the keys that it
reads, unless it is excused. -/
theorem contains_of_no_errors {root : Node} {steps : List Node} {state : State}
    {before after : List Running} {now : Running} {key : String}
    (sequence : root.kind = .sequence steps) (transforms : ∀ step ∈ steps, step.IsTransform)
    (whole : state.NullFree) (clean : Diagnostic.errors (checkWith root state.keys) = [])
    (run : Running.across 0 (steps.map Tree.ops) state = before ++ now :: after)
    (reads : key ∈ now.op.reads) :
    now.view.contains key ∨ Running.Excused steps state before now key := by
  obtain ⟨final, chained⟩ := Running.chained_across 0 (steps.map Tree.ops) state
  rw [run] at chained
  obtain ⟨view, chained, rfl, -⟩ := Running.chained_append.1 chained
  obtain ⟨i, ops, position, at_, mem, all⟩ := Running.position_of_across run
  obtain ⟨step, hs, rfl⟩ : ∃ step, steps[i]? = some step ∧ step.ops = ops := by
    simpa using at_
  cases absent : now.view.get? key with
  | some value => exact .inl (KeyMap.contains_iff.2 ⟨value, absent⟩)
  | none =>
    refine .inr ?_
    by_cases source : state.get? key ≠ none ∨ ∃ earlier ∈ before, key ∈ earlier.op.writes
    · exact .inl (Running.exists_leavesAbsent whole chained absent source)
    obtain ⟨unseeded, unwritten⟩ :
        state.get? key = none ∧ ∀ earlier ∈ before, key ∉ earlier.op.writes := by
      simpa using source
    refine .inr ⟨by simp [unseeded], unwritten, ?_⟩
    have demanded := mem_demand_of_mem_reads mem reads
    rcases sources_of_no_errors sequence transforms clean hs demanded with
      seeded | external | ⟨j, lt, sibling, hj, declared | ⟨op, among, writes⟩⟩
    · exact absurd unseeded (State.mem_keys.1 seeded)
    · exact .inl external
    · exact .inr ⟨j, by omega, sibling, hj, declared⟩
    · obtain ⟨earlier, found, rfl⟩ := all j lt sibling.ops (by simp [hj]) op among
      exact absurd writes (unwritten earlier found)

section Exceptions

/-- A flow of transforms without errors, on whose run an operation does not find a key that it
reads. -/
def CleanButMissing (root : Node) (steps : List Node) (state : State) : Prop :=
  root.kind = .sequence steps ∧ (∀ step ∈ steps, step.IsTransform) ∧ state.NullFree ∧
    Diagnostic.errors (checkWith root state.keys) = [] ∧
    ∃ before now after key, Running.across 0 (steps.map Tree.ops) state = before ++ now :: after ∧
      key ∈ now.op.reads ∧ ¬ now.view.contains key

def flowOf (steps : List Node) : Node :=
  .mk "flow" .empty (.sequence steps)

def transformOf (op : StateOp) : Node :=
  .mk "transform" .empty (.transform [op])

/-- It declares a key and has no operation for it. -/
def declareDraft : Node :=
  .mk "declare" { Contract.empty with writes := .singleton "draft" } (.transform [])

def copyDraft : Node :=
  transformOf (.copy "draft" "final")

def draftState : State :=
  KeyMap.ofList [("draft", .string "v1")]

theorem nullFree_draftState : draftState.NullFree :=
  State.nullFree_empty.write "draft" (.string "v1")

/-- Each excuse is needed: a key that is dropped, one that is external, and one that is only
declared. -/
theorem cleanButMissing_flows :
    CleanButMissing (flowOf [transformOf (.drop "draft"), copyDraft])
        [transformOf (.drop "draft"), copyDraft] draftState ∧
      CleanButMissing (flowOf [transformOf (.copy "app:theme" "theme")])
        [transformOf (.copy "app:theme" "theme")] ∅ ∧
      CleanButMissing (flowOf [declareDraft, copyDraft]) [declareDraft, copyDraft] ∅ := by
  refine ⟨⟨rfl, ?_, nullFree_draftState, by decide, ?_⟩,
    ⟨rfl, ?_, State.nullFree_empty, by decide, ?_⟩, ⟨rfl, ?_, State.nullFree_empty, by decide, ?_⟩⟩
  · simp [copyDraft, transformOf, Tree.IsTransform, Tree.kind]
  · exact ⟨[⟨0, .drop "draft", draftState⟩], ⟨1, .copy "draft" "final", ∅⟩, [], "draft", rfl,
      by decide, by decide⟩
  · simp [transformOf, Tree.IsTransform, Tree.kind]
  · exact ⟨[], ⟨0, .copy "app:theme" "theme", ∅⟩, [], "app:theme", rfl, by decide, by decide⟩
  · simp [declareDraft, copyDraft, transformOf, Tree.IsTransform, Tree.kind]
  · exact ⟨[], ⟨1, .copy "draft" "final", ∅⟩, [], "draft", rfl, by decide, by decide⟩

theorem contains_of_no_errors_copyDraft :
    let steps := [transformOf (.set "draft" (.string "v1")), copyDraft]
    let first : Running := ⟨0, .set "draft" (.string "v1"), ∅⟩
    let now : Running := ⟨1, .copy "draft" "final", draftState⟩
    (flowOf steps).kind = .sequence steps ∧ (∀ step ∈ steps, step.IsTransform) ∧
      State.NullFree ∅ ∧ Diagnostic.errors (checkWith (flowOf steps) (State.keys ∅)) = [] ∧
      Running.across 0 (steps.map Tree.ops) ∅ = [first] ++ now :: [] ∧ "draft" ∈ now.op.reads ∧
      (now.view.contains "draft" ∨ Running.Excused steps ∅ [first] now "draft") := by
  intro steps first now
  have sequence : (flowOf steps).kind = .sequence steps := rfl
  have transforms : ∀ step ∈ steps, step.IsTransform := by
    simp [steps, copyDraft, transformOf, Tree.IsTransform, Tree.kind]
  have clean : Diagnostic.errors (checkWith (flowOf steps) (State.keys ∅)) = [] := by decide
  have run : Running.across 0 (steps.map Tree.ops) ∅ = [first] ++ now :: [] := rfl
  have reads : "draft" ∈ now.op.reads := by decide
  exact ⟨sequence, transforms, State.nullFree_empty, clean, run, reads,
    contains_of_no_errors sequence transforms State.nullFree_empty clean run reads⟩

end Exceptions

end Workflow
