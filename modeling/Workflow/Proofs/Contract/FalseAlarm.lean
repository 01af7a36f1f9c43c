import Workflow.Proofs.Contract.Compilation
import Workflow.Proofs.Contract.Transforms

/-! Transforms that find every key that they read, and the errors that the check may report all the
same: it knows the reads of a whole step, and not in which order the operations of a step come. -/
namespace Workflow

namespace Running

variable {start final state : State} {before : List Running} {key : String}

theorem within_append (transform : Nat) (first second : List StateOp) (working : Working) :
    within transform (first ++ second) working =
      within transform first working ++
        within transform second (first.foldl Working.apply working) := by
  induction first generalizing working with
  | nil => rfl
  | cons op rest ih => simp [within, ih]

/-- An operation of a transform runs after those before it in its transform and after all operations
of the transforms before, and after no others. -/
theorem exists_running {transforms : List (List StateOp)} {i : Nat} {first second : List StateOp}
    {op : StateOp} (at_ : transforms[i]? = some (first ++ op :: second)) (transform : Nat)
    (state : State) :
    ∃ before now after, across transform transforms state = before ++ now :: after ∧ now.op = op ∧
      ∀ earlier ∈ before, earlier.op ∈ first ∨
        ∃ j < i, ∃ others, transforms[j]? = some others ∧ earlier.op ∈ others := by
  induction transforms generalizing i transform state with
  | nil => simp at at_
  | cons ops rest ih =>
    cases i with
    | zero =>
      obtain rfl : ops = first ++ op :: second := by simpa using at_
      rw [across, within_append, within, List.append_assoc, List.cons_append]
      refine ⟨_, _, _, rfl, rfl, fun earlier mem => .inl ?_⟩
      have mem := List.mem_map_of_mem (f := (·.op)) mem
      rwa [map_op_within] at mem
    | succ i =>
      obtain ⟨before, now, after, run, own, earlier_⟩ :=
        ih (by simpa using at_) (transform + 1) (state.merge (applyOps ops state))
      refine ⟨within transform ops ⟨state, ∅⟩ ++ before, now, after, ?_, own, ?_⟩
      · rw [across, run, List.append_assoc]
      · intro earlier mem
        rcases List.mem_append.1 mem with old | new
        · have old := List.mem_map_of_mem (f := (·.op)) old
          rw [map_op_within] at old
          exact .inr ⟨0, Nat.succ_pos i, ops, rfl, old⟩
        · rcases earlier_ earlier new with own | ⟨j, lt, others, hj, among⟩
          · exact .inl own
          · exact .inr ⟨j + 1, Nat.succ_lt_succ lt, others, by simpa using hj, among⟩

/-- A key that is there at the end was there at the start, or some operation counts as one that
writes it. -/
theorem written_of_found (chained : Chained start before final) (found : final.get? key ≠ none) :
    start.get? key ≠ none ∨ ∃ earlier ∈ before, key ∈ earlier.op.writes := by
  induction before generalizing start with
  | nil =>
    obtain rfl : start = final := chained
    exact .inl found
  | cons now rest ih =>
    obtain ⟨rfl, chained⟩ := chained
    rcases ih chained with there | ⟨earlier, mem, writes⟩
    · by_cases own : key ∈ now.op.writes
      · exact .inr ⟨now, List.mem_cons_self, own⟩
      · rw [StateOp.get?_after_of_not_mem own] at there
        exact .inl there
    · exact .inr ⟨earlier, List.mem_cons_of_mem now mem, writes⟩

/-- Every operation finds the keys that it reads. -/
def Finds (run : List Running) : Prop :=
  ∀ now ∈ run, ∀ key ∈ now.op.reads, now.view.contains key

instance (run : List Running) : Decidable (Finds run) :=
  inferInstanceAs (Decidable (∀ now ∈ run, ∀ key ∈ now.op.reads.toList, now.view.contains key))

end Running

/-- An operation of the transform reads the key, and an earlier one of the same transform counts as
one that writes it. -/
def Tree.ReadsOwnWrites (step : Node) (key : String) : Prop :=
  ∃ first op second, step.ops = first ++ op :: second ∧ key ∈ op.reads ∧
    ∃ earlier ∈ first, key ∈ earlier.writes

/-- An error that may be reported although every operation finds what it reads: nothing before the
step provides the key, which the step only declares or writes itself before it reads it. -/
def MayAlarm (root : Node) (steps : List Node) (state : State) (diagnostic : Diagnostic) : Prop :=
  ∃ (step : Node) (key : String), diagnostic = Availability.missingKey step.name key ∧
    ¬ isExternalKey key ∧ ¬ state.contains key ∧
    (step = root ∧ key ∈ step.contract.effectiveReads ∨
      ∃ i : Nat, steps[i]? = some step ∧
        (∀ j < i, ∀ sibling, steps[j]? = some sibling → key ∉ sibling.writes) ∧
        (key ∈ step.contract.effectiveReads ∨ step.ReadsOwnWrites key))

section

variable {root step : Node} {steps : List Node} {state : State} {key : String}

theorem mem_writes_iff (transform : step.IsTransform) :
    key ∈ step.writes ↔
      key ∈ step.contract.effectiveWrites ∨ ∃ op ∈ step.ops, key ∈ op.writes := by
  obtain ⟨name, contract, kind⟩ := step
  obtain ⟨ops, kind⟩ := transform
  obtain rfl : _ = Kind.transform ops := kind
  simp [Tree.writes, Tree.contract, Tree.ops, Tree.kind, Kind.writes]

theorem mem_demand_sequence (sequence : root.kind = .sequence steps) :
    key ∈ root.demand ↔ key ∈ root.contract.effectiveReads := by
  simp [Node.demand, Node.impliedDemand, Tree.reads, sequence, Kind.reads]

theorem mem_demand_transform (transform : step.IsTransform) :
    key ∈ step.demand ↔
      key ∈ step.contract.effectiveReads ∨ ∃ op ∈ step.ops, key ∈ op.reads := by
  obtain ⟨ops, kind⟩ := transform
  simp [Node.demand, Node.impliedDemand, Tree.reads, Tree.ops, kind, Kind.reads]

/-- A key that an operation finds was there from the start, or an earlier operation of its transform
or a transform before it counts as writing it. -/
theorem provided_of_finds {i : Nat} {first second : List StateOp} {op : StateOp}
    (finds : Running.Finds (Running.across 0 (steps.map Tree.ops) state))
    (hs : steps[i]? = some step) (ops : step.ops = first ++ op :: second) (reads : key ∈ op.reads) :
    state.contains key ∨ (∃ earlier ∈ first, key ∈ earlier.writes) ∨
      ∃ j < i, ∃ sibling, steps[j]? = some sibling ∧ ∃ op ∈ sibling.ops, key ∈ op.writes := by
  have at_ : (steps.map Tree.ops)[i]? = some (first ++ op :: second) := by simp [hs, ops]
  obtain ⟨before, now, after, run, rfl, places⟩ := Running.exists_running at_ 0 state
  obtain ⟨final, chained⟩ := Running.chained_across 0 (steps.map Tree.ops) state
  rw [run] at chained finds
  obtain ⟨view, chained, rfl, -⟩ := Running.chained_append.1 chained
  have found := KeyMap.contains_iff.1 (finds now (by simp) key reads)
  rcases Running.written_of_found chained (Option.ne_none_iff_exists'.2 found) with
    there | ⟨earlier, mem, writes⟩
  · exact .inl (KeyMap.contains_iff.2 (Option.ne_none_iff_exists'.1 there))
  · rcases places earlier mem with own | ⟨j, lt, others, hj, among⟩
    · exact .inr (.inl ⟨earlier.op, own, writes⟩)
    · obtain ⟨sibling, hs, rfl⟩ : ∃ sibling, steps[j]? = some sibling ∧ sibling.ops = others := by
        simpa using hj
      exact .inr (.inr ⟨j, lt, sibling, hs, earlier.op, among, writes⟩)

/-- The step at a place of a sequence of transforms is the sequence itself or one of the
transforms. -/
theorem at_sequence {place : Place} (sequence : root.kind = .sequence steps)
    (transforms : ∀ step ∈ steps, step.IsTransform) (h : root.at? place = some step) :
    place = [] ∧ step = root ∨ ∃ i, place = [i] ∧ steps[i]? = some step := by
  cases place with
  | nil => exact .inl ⟨rfl, (Option.some.inj h).symm⟩
  | cons i place =>
    obtain ⟨child, hc, h⟩ := Tree.at?_cons_eq_some.1 h
    rw [Tree.children_of_sequence sequence] at hc
    cases place with
    | nil => exact .inr ⟨i, rfl, hc.trans h⟩
    | cons j place =>
      -- There is nothing below a transform.
      obtain ⟨ops, kind⟩ := transforms child (List.mem_of_getElem? hc)
      simp [Tree.at?, Tree.children, kind, Kind.children] at h

/-- What is available when a transform begins was there from the start, or a transform before it
counts as writing it. -/
theorem mem_availableAt_transform {seed : KeySet} {i : Nat} (sequence : root.kind = .sequence steps)
    (transforms : ∀ step ∈ steps, step.IsTransform) (hs : steps[i]? = some step) :
    key ∈ Availability.availableAt root seed [i] ↔
      key ∈ seed ∨ ∃ j < i, ∃ sibling, steps[j]? = some sibling ∧ key ∈ sibling.writes := by
  have hc : root.children[i]? = some step := by rwa [Tree.children_of_sequence sequence]
  rw [Availability.availableAt_cons hc, Availability.availableAt_nil, sequence,
    Availability.mem_entering]
  have ensured (j : Nat) (sibling : Node) :
      steps[j]? = some sibling ∧ sibling.Ensures key ↔
        steps[j]? = some sibling ∧ key ∈ sibling.writes := by
    refine and_congr_right fun hj => ?_
    have transform := transforms sibling (List.mem_of_getElem? hj)
    rw [ensures_transform transform, mem_writes_iff transform]
  simp [Kind.itemKey?, Kind.Earlier, ensured]

theorem mayAlarm_of_error {diagnostic : Diagnostic} (sequence : root.kind = .sequence steps)
    (transforms : ∀ step ∈ steps, step.IsTransform)
    (finds : Running.Finds (Running.across 0 (steps.map Tree.ops) state))
    (error : diagnostic ∈ Diagnostic.errors (checkWith root state.keys)) :
    MayAlarm root steps state diagnostic := by
  rw [errors_checkWith_eq] at error
  obtain ⟨⟨place, step⟩, occurs, reported⟩ := List.mem_flatMap.1 error
  obtain ⟨key, among, rfl⟩ := List.mem_map.1 reported
  obtain ⟨demanded, missing⟩ := List.mem_filter.1 among
  obtain ⟨unavailable, own⟩ : key ∉ Availability.availableAt root state.keys place ∧
      ¬ isExternalKey key := by
    simpa [Availability.isMissing, ← KeySet.contains_iff] using missing
  have demanded := mem_demandOrder.1 demanded
  have unseeded (absent : key ∉ state.keys) : ¬ state.contains key := fun there =>
    absent (State.mem_keys.2 (Option.ne_none_iff_exists'.2 (KeyMap.contains_iff.1 there)))
  rcases at_sequence sequence transforms (Tree.mem_occurrences.1 occurs) with
    ⟨rfl, rfl⟩ | ⟨i, rfl, hs⟩
  · refine ⟨step, key, ?_, own, unseeded unavailable, .inl ⟨rfl, ?_⟩⟩
    · simp [missingReport, sequence]
    · exact (mem_demand_sequence sequence).1 demanded
  · have transform := transforms step (List.mem_of_getElem? hs)
    rw [mem_availableAt_transform sequence transforms hs] at unavailable
    push Not at unavailable
    obtain ⟨absent, unwritten⟩ := unavailable
    refine ⟨step, key, ?_, own, unseeded absent, .inr ⟨i, hs, unwritten, ?_⟩⟩
    · obtain ⟨ops, kind⟩ := transform
      simp [missingReport, kind]
    · rcases (mem_demand_transform transform).1 demanded with declared | ⟨op, mem, reads⟩
      · exact .inl declared
      obtain ⟨first, second, ops⟩ := List.append_of_mem mem
      rcases provided_of_finds finds hs ops reads with there | ⟨earlier, before, writes⟩ |
        ⟨j, lt, sibling, hj, op, mem, writes⟩
      · exact absurd there (unseeded absent)
      · exact .inr ⟨first, op, second, ops, reads, earlier, before, writes⟩
      · refine absurd ?_ (unwritten j lt sibling hj)
        exact (mem_writes_iff (transforms sibling (List.mem_of_getElem? hj))).2
          (.inr ⟨op, mem, writes⟩)

theorem exists_compilation_of_no_errors {α : Type} (clean : Diagnostic.errors (check root) = [])
    (backend : Backend α) (config : Config) :
    ∃ compilation, compileChecked backend root config = .ok compilation :=
  exists_compilation_iff.2 fun _ => clean

/-- If every operation of a sequence of transforms finds what it reads, the check reports at most
errors about keys that a step only declares, or reads after having written them. If there are no
such keys and nothing has to be there from the start, no contract mode refuses the workflow. -/
theorem mayAlarm_of_finds (sequence : root.kind = .sequence steps)
    (transforms : ∀ step ∈ steps, step.IsTransform)
    (finds : Running.Finds (Running.across 0 (steps.map Tree.ops) state)) :
    (∀ diagnostic ∈ Diagnostic.errors (checkWith root state.keys),
        MayAlarm root steps state diagnostic) ∧
      (state = ∅ → (∀ diagnostic, ¬ MayAlarm root steps state diagnostic) →
        ∀ {α : Type} (backend : Backend α) (config : Config),
          ∃ compilation, compileChecked backend root config = .ok compilation) := by
  have alarms (diagnostic : Diagnostic)
      (error : diagnostic ∈ Diagnostic.errors (checkWith root state.keys)) :
      MayAlarm root steps state diagnostic :=
    mayAlarm_of_error sequence transforms finds error
  refine ⟨alarms, fun empty none => exists_compilation_of_no_errors ?_⟩
  subst empty
  exact List.eq_nil_iff_forall_not_mem.2 fun diagnostic error => none diagnostic (alarms _ error)

end

section Alarms

/-- Every operation of a flow of transforms finds what it reads. -/
def FindsAll (root : Node) (steps : List Node) (state : State) : Prop :=
  root.kind = .sequence steps ∧ (∀ step ∈ steps, step.IsTransform) ∧ state.NullFree ∧
    Running.Finds (Running.across 0 (steps.map Tree.ops) state)

/-- It writes the key before it reads it. -/
def setAndCopy : Node :=
  .mk "transform" .empty (.transform [.set "draft" (.string "v1"), .copy "draft" "final"])

def readsDraft : Contract :=
  { Contract.empty with reads := .singleton "draft" }

/-- It declares that it reads the key and has no operation for it. -/
def declareRead : Node :=
  .mk "declare" readsDraft (.transform [])

/-- Nothing is done, but a key is declared to be read. -/
def idleFlow : Node :=
  .mk "flow" readsDraft (.sequence [])

def strictConfig : Config :=
  { Config.default with contractMode := .strict }

/-- Each kind of alarm does arise: a key that a transform writes before it reads it, and one that a
transform or the flow only declares. And strict mode, which knows no keys from the start, refuses a
flow in which the check finds no error once they are known. -/
theorem findsAll_alarms :
    (FindsAll (flowOf [setAndCopy]) [setAndCopy] ∅ ∧
        Diagnostic.errors (checkWith (flowOf [setAndCopy]) (State.keys ∅)) ≠ []) ∧
      (FindsAll (flowOf [declareRead]) [declareRead] ∅ ∧
        Diagnostic.errors (checkWith (flowOf [declareRead]) (State.keys ∅)) ≠ []) ∧
      (FindsAll idleFlow [] ∅ ∧ Diagnostic.errors (checkWith idleFlow (State.keys ∅)) ≠ []) ∧
      FindsAll (flowOf [copyDraft]) [copyDraft] draftState ∧
        Diagnostic.errors (checkWith (flowOf [copyDraft]) draftState.keys) = [] ∧
        ∃ error, compileChecked .dryRun (flowOf [copyDraft]) strictConfig = .error error := by
  refine ⟨⟨⟨rfl, ?_, State.nullFree_empty, by decide⟩, by decide⟩,
    ⟨⟨rfl, ?_, State.nullFree_empty, by decide⟩, by decide⟩,
    ⟨⟨rfl, by simp, State.nullFree_empty, by decide⟩, by decide⟩,
    ⟨rfl, ?_, nullFree_draftState, by decide⟩, by decide, ⟨_, rfl⟩⟩
  · simp [setAndCopy, Tree.IsTransform, Tree.kind]
  · simp [declareRead, Tree.IsTransform, Tree.kind]
  · simp [copyDraft, transformOf, Tree.IsTransform, Tree.kind]

/-- A single operation reads nothing that another one has written. -/
theorem not_readsOwnWrites_transformOf (op : StateOp) (key : String) :
    ¬ (transformOf op).ReadsOwnWrites key := by
  intro reads
  obtain ⟨first, now, second, ops, -, earlier, mem, -⟩ := reads
  cases first with
  | nil => simp at mem
  | cons other rest => simp [transformOf, Tree.ops, Tree.kind] at ops

theorem compiles_copyDraft :
    let steps := [transformOf (.set "draft" (.string "v1")), copyDraft]
    let root := flowOf steps
    root.kind = .sequence steps ∧ (∀ step ∈ steps, step.IsTransform) ∧
      Running.Finds (Running.across 0 (steps.map Tree.ops) ∅) ∧
      (∀ diagnostic ∈ Diagnostic.errors (checkWith root (State.keys ∅)),
        MayAlarm root steps ∅ diagnostic) ∧
      (∀ diagnostic, ¬ MayAlarm root steps ∅ diagnostic) ∧
      ∀ config, ∃ compilation, compileChecked .dryRun root config = .ok compilation := by
  intro steps root
  have sequence : root.kind = .sequence steps := rfl
  have transforms : ∀ step ∈ steps, step.IsTransform := by
    simp [steps, copyDraft, transformOf, Tree.IsTransform, Tree.kind]
  have finds : Running.Finds (Running.across 0 (steps.map Tree.ops) ∅) := by decide
  have none (diagnostic : Diagnostic) : ¬ MayAlarm root steps ∅ diagnostic := by
    intro alarm
    obtain ⟨step, key, -, -, -, ⟨rfl, declared⟩ | ⟨i, hs, -, declared | reads⟩⟩ := alarm
    · exact KeySet.not_mem_empty key declared
    · have mem := List.mem_of_getElem? hs
      rcases (by simpa [steps] using mem : _ ∨ _) with rfl | rfl
      · exact KeySet.not_mem_empty key declared
      · exact KeySet.not_mem_empty key declared
    · have mem := List.mem_of_getElem? hs
      rcases (by simpa [steps] using mem : _ ∨ _) with rfl | rfl
      · exact not_readsOwnWrites_transformOf _ key reads
      · exact not_readsOwnWrites_transformOf _ key reads
  obtain ⟨alarms, compiles⟩ := mayAlarm_of_finds sequence transforms finds
  exact ⟨sequence, transforms, finds, alarms, none, compiles rfl none .dryRun⟩

end Alarms

end Workflow
