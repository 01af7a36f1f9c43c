import Workflow.Proofs.Contract.MissingKeys
import Workflow.Proofs.Contract.Seeding
import Workflow.Proofs.Flow.Expression
import Workflow.Proofs.Flow.Lowering

/-! A choice by the result of a step finds this result among the available keys, wherever it is put. -/
namespace Workflow

open Availability

namespace Flow

variable {flow source : Flow} {key : String}

theorem outputKey?_eq (flow : Flow) :
    flow.outputKey? = outputKeyStep flow (flow.kind.map outputKey?) :=
  Tree.fold_eq outputKeyStep flow

theorem outputKey?_of_sequence {steps : List Flow} (kind : flow.kind = .sequence steps)
    (h : flow.outputKey? = some key) : ∃ last ∈ steps, outputKey? last = some key := by
  rw [outputKey?_eq, kind] at h
  have last : (steps.map outputKey?).getLast?.join = some key := h
  rw [List.getLast?_map, Option.join_eq_some_iff, Option.map_eq_some_iff] at last
  obtain ⟨step, final, known⟩ := last
  exact ⟨step, List.mem_of_getLast? final, known⟩

theorem ensures_of_mem_writes (h : key ∈ flow.kind.writes) : flow.outline.Ensures key := by
  have own : key ∈ flow.outline.writes := by
    rw [Tree.writes, KeySet.mem_union, kind_outline, Kind.writes_map]
    exact .inr h
  exact fun choice _ => Choice.completes_iff.2 (.inl own)

/-- The key that the result of an expression is known to be stored under is left by the completed step
on every choice. -/
theorem ensures_of_outputKey? (h : flow.outputKey? = some key) : flow.outline.Ensures key := by
  induction flow using Tree.induction with
  | step flow ih =>
    have known := h
    rw [outputKey?_eq] at h
    cases kind : flow.kind with
    | leaf spec =>
      have stored : spec.outputKey = some key := by simpa [kind, Kind.map, outputKeyStep] using h
      exact ensures_of_mem_writes (by simp [kind, Kind.writes, stored])
    | mapOver body listKey itemKey outputKey =>
      have stored : outputKey = key := by simpa [kind, Kind.map, outputKeyStep] using h
      exact ensures_of_mem_writes (by simp [kind, Kind.writes, stored])
    | capture own =>
      have stored : own = key := by simpa [kind, Kind.map, outputKeyStep] using h
      exact ensures_of_mem_writes (by simp [kind, Kind.writes, stored])
    | sequence steps =>
      obtain ⟨last, mem, stored⟩ := outputKey?_of_sequence kind known
      have among : last ∈ flow.children := by rwa [Tree.children_of_sequence kind]
      have inclusive : ¬ (outline flow).kind.isExclusive := by
        simp [kind, Kind.map, Kind.isExclusive]
      have free : (outline flow).kind.itemKey? = none := by simp [kind, Kind.map, Kind.itemKey?]
      refine (Tree.ensures_of_all inclusive free).2 (.inr ⟨outline last, ?_, ih last among stored⟩)
      rw [children_outline]
      exact List.mem_map_of_mem among
    | _ => simp [kind, Kind.map, outputKeyStep] at h

/-- Absorbing a sequence keeps the step that stores the result. -/
theorem exists_ensures_of_splice (h : source.outputKey? = some key) :
    ∃ step ∈ source.splice sequenceMembers, Tree.Ensures (outline step) key := by
  rw [splice]
  split
  · cases found : sequenceMembers source.kind with
    | none => exact ⟨source, by simp, ensures_of_outputKey? h⟩
    | some steps =>
      have kind : source.kind = .sequence steps := by
        revert found
        cases source.kind <;> simp [sequenceMembers]
      obtain ⟨last, mem, stored⟩ := outputKey?_of_sequence kind h
      exact ⟨last, by simpa using mem, ensures_of_outputKey? stored⟩
  · exact ⟨source, by simp, ensures_of_outputKey? h⟩

end Flow

namespace Availability

/-- Before a step there is what was there before its group, and what those before it in the group
leave. -/
theorem availableAt_snoc {root group : Node} {place : Place} {i : Nat}
    (h : root.at? place = some group) (lt : i < group.children.length) (seed : KeySet) :
    availableAt root seed (place ++ [i]) = entering group.kind (availableAt root seed place) i := by
  induction place generalizing root seed with
  | nil =>
    obtain rfl := Option.some.inj h
    rw [List.nil_append, availableAt_cons (List.getElem?_eq_getElem lt), availableAt_nil,
      availableAt_nil]
  | cons j place ih =>
    obtain ⟨child, at_, h⟩ := Tree.at?_cons_eq_some.1 h
    rw [List.cons_append, availableAt_cons at_, availableAt_cons at_, ih h]

/-- In a sequence a step finds what a step before it leaves. -/
theorem mem_availableAt_of_ensures {root group step : Node} {place : Place} {key : String}
    {before after : List Node} (h : root.at? place = some group)
    (kind : group.kind = .sequence (before ++ step :: after))
    (ensures : ∃ earlier ∈ before, earlier.Ensures key) (seed : KeySet) :
    root.at? (place ++ [before.length]) = some step ∧
      key ∈ availableAt root seed (place ++ [before.length]) := by
  have children := Tree.children_of_sequence kind
  constructor
  · rw [Tree.at?_snoc h, children]
    simp
  · have lt : before.length < group.children.length := by
      rw [children]
      simp
    rw [availableAt_snoc h lt, mem_entering]
    obtain ⟨earlier, mem, leaves⟩ := ensures
    obtain ⟨j, inside, rfl⟩ := List.mem_iff_getElem.1 mem
    refine .inr (.inr ⟨_, kind, j, inside, before[j], ?_, leaves⟩)
    rw [List.getElem?_append_left inside, List.getElem?_eq_getElem inside]

/-- A choice whose key is there does not report it. -/
theorem not_mem_demandErrors {route : Node} {key : String} {rules : List (Rule Node)}
    {otherwise : Option Node} {available : KeySet} (kind : route.kind = .route key rules otherwise)
    (h : key ∈ available) (other : String) :
    missingRoutingKey route.name other ∉ demandErrors route available := by
  have present : isMissing available key = false := by
    simp [isMissing, KeySet.contains_iff.2 h]
  intro mem
  simp only [demandErrors, kind, present, Bool.false_eq_true, if_false, List.nil_append] at mem
  obtain ⟨missing, -, same⟩ := List.mem_map.1 mem
  exact missingKey_ne_missingRoutingKey other same

end Availability

namespace Flow

/-- The check comes to the choice with its key among the available ones, so that what it reports there
is not that the key is missing. -/
def FindsRoutingKey (root : Node) (seed : KeySet) (place : Place) (route : Node) (key : String) :
    Prop :=
  root.at? place = some route ∧ key ∈ availableAt root seed place ∧
    ∀ other, missingRoutingKey route.name other ∉ demandErrors route (availableAt root seed place)

theorem kind_outline_branch (source : Flow) (route : Route) :
    (source.andThen route.toFlow).outline.kind =
      .sequence ((source.splice sequenceMembers).map outline ++ [route.toFlow.outline]) := by
  have alone : route.toFlow.splice sequenceMembers = [route.toFlow] := by
    rw [splice]
    split <;> rfl
  rw [kind_outline]
  simp [andThen, sequence, ofKind, Tree.kind, Kind.map, alone]

/-- Branching needs the key of the result. The choice that it appends finds this key, also when the
whole is put among other steps, be it as a step or as a part of another sequence. -/
theorem branch_spec (source : Flow) (routes : Routes) :
    (source.outputKey? = none →
      source.branch routes = .error (.missingOutputKey source.label)) ∧
    ∀ key, source.outputKey? = some key → ∃ flow, source.branch routes = .ok flow ∧
      ∀ tree, flow.lower = .ok tree → ∃ steps route rules otherwise,
        tree.kind = .sequence (steps ++ [route]) ∧ route.kind = .route key rules otherwise ∧
        ∀ root place group before after seed, root.at? place = some group →
          group.kind = .sequence (before ++ (steps ++ [route]) ++ after) →
          FindsRoutingKey root seed (place ++ [before.length + steps.length]) route key ∧
          Diagnostic.errors (checkWith root seed) =
            root.occurrences.flatMap fun (place, step) =>
              demandErrors step (availableAt root seed place) := by
  refine ⟨fun unknown => by simp [branch, unknown], fun key known => ?_⟩
  refine ⟨source.andThen (routes.toRoute key).toFlow, by simp [branch, known],
    fun tree completed => ?_⟩
  obtain ⟨-, rfl⟩ := lower_eq_ok_iff.1 completed
  have route : (routes.toRoute key).toFlow.outline.kind = .route key _ _ := kind_outline _
  refine ⟨_, _, _, _, kind_outline_branch source (routes.toRoute key), route, ?_⟩
  intro root place group before after seed at_ kind
  obtain ⟨step, mem, ensures⟩ := exists_ensures_of_splice known
  have earlier : ∃ earlier ∈ before ++ (source.splice sequenceMembers).map outline,
      Tree.Ensures earlier key :=
    ⟨outline step, List.mem_append_right before (List.mem_map_of_mem mem), ensures⟩
  have members : group.kind = .sequence
      (before ++ (source.splice sequenceMembers).map outline ++
        (routes.toRoute key).toFlow.outline :: after) := by
    rw [kind]
    simp
  obtain ⟨there, available⟩ := mem_availableAt_of_ensures at_ members earlier seed
  rw [List.length_append] at there available
  refine ⟨⟨there, available, not_mem_demandErrors route available⟩, ?_⟩
  simp only [errors_checkWith_eq, demandErrors_eq]

section Billing

def classifyAgent : Agent :=
  (Agent.new "classify").mapSpec fun spec => { spec with outputKey := some "intent" }

def billingRoutes : Routes :=
  Routes.empty.when (.string "billing") (Agent.new "billing").toFlow

def billingFlow : Flow :=
  classifyAgent.toFlow.andThen (billingRoutes.toRoute "intent").toFlow

theorem branch_spec_billing :
    (Agent.new "classify").toFlow.branch billingRoutes = .error (.missingOutputKey "classify") ∧
      classifyAgent.toFlow.branch billingRoutes = .ok billingFlow ∧
      ∃ tree route, billingFlow.lower = .ok tree ∧
        FindsRoutingKey tree ∅ [1] route "intent" := by
  refine ⟨(branch_spec (Agent.new "classify").toFlow billingRoutes).1 rfl, rfl, ?_⟩
  obtain ⟨flow, built, all⟩ := (branch_spec classifyAgent.toFlow billingRoutes).2 "intent" rfl
  obtain rfl : billingFlow = flow := Except.ok.inj built
  have completed : billingFlow.lower = .ok billingFlow.outline := rfl
  obtain ⟨steps, route, rules, otherwise, kind, -, finds⟩ := all _ completed
  have two : 2 = (steps ++ [route]).length := congrArg (·.children.length) kind
  have one : steps.length = 1 := by
    rw [List.length_append] at two
    exact (Nat.succ.inj two).symm
  have alone : billingFlow.outline.kind = .sequence ([] ++ (steps ++ [route]) ++ []) := by
    rw [kind, List.nil_append, List.append_nil]
  have found := (finds billingFlow.outline [] _ [] [] ∅ rfl alone).1
  rw [one] at found
  exact ⟨_, route, completed, found⟩

end Billing

end Flow

end Workflow
