import Workflow.Flow.Builder
import Workflow.Proofs.Flow.Branch

/-! Composing expressions without regard to brackets. A group of one kind directly inside of another
one of that kind leaves no trace, so that it does not matter in how many goes the members are put
together. -/
namespace Workflow

/-- A way to join expressions two at a time. -/
inductive Bracketing where
  | single (flow : Flow)
  | pair (left right : Bracketing)

namespace Bracketing

/-- The expressions from left to right. -/
def flows : Bracketing → List Flow
  | single flow => [flow]
  | pair left right => left.flows ++ right.flows

def join (op : Flow → Flow → Flow) : Bracketing → Flow
  | single flow => flow
  | pair left right => op (left.join op) (right.join op)

end Bracketing

namespace Flow

/-- The members, with anonymous groups that `members` recognises absorbed. -/
def gather (make : List Flow → Kind Flow) (members : Kind Flow → Option (List Flow))
    (flows : List Flow) : Flow :=
  ofKind (make (flows.flatMap (splice members)))

/-- An operation on lists of expressions and one on pairs of them do the same, and groups inside of
groups count as their members. -/
structure IsListMonoid (all : List Flow → Flow) (both : Flow → Flow → Flow) : Prop where
  absorb : ∀ before inner after,
    (all (before ++ [all inner] ++ after)).lower = (all (before ++ inner ++ after)).lower
  rebracket : ∀ left right : Bracketing,
    ((left.pair right).join both).lower = (all (left.pair right).flows).lower

section Gather

variable {make : List Flow → Kind Flow} {members : Kind Flow → Option (List Flow)}

theorem splice_gather (recognises : ∀ steps, members (make steps) = some steps)
    (flows : List Flow) :
    (gather make members flows).splice members = flows.flatMap (splice members) := by
  have kind : (gather make members flows).kind = make (flows.flatMap (splice members)) := rfl
  rw [splice, gather, isAnonymous_ofKind, if_pos rfl, ← gather, kind, recognises]
  rfl

theorem gather_absorb (recognises : ∀ steps, members (make steps) = some steps)
    (before inner after : List Flow) :
    gather make members (before ++ [gather make members inner] ++ after) =
      gather make members (before ++ inner ++ after) := by
  have same : (before ++ [gather make members inner] ++ after).flatMap (splice members) =
      (before ++ inner ++ after).flatMap (splice members) := by
    simp only [List.flatMap_append, List.flatMap_singleton, splice_gather recognises]
  exact congrArg (fun steps => ofKind (make steps)) same

/-- Joined in pairs, the expressions give away the members that they give one after the other. -/
theorem splice_join (recognises : ∀ steps, members (make steps) = some steps)
    (bracketing : Bracketing) :
    (bracketing.join fun one other => gather make members [one, other]).splice members =
      bracketing.flows.flatMap (splice members) := by
  induction bracketing with
  | single flow => exact (List.flatMap_singleton _ _).symm
  | pair left right ihl ihr =>
    rw [Bracketing.join, splice_gather recognises, List.flatMap_cons, List.flatMap_singleton, ihl,
      ihr, Bracketing.flows, List.flatMap_append]

theorem isListMonoid_gather (recognises : ∀ steps, members (make steps) = some steps) :
    IsListMonoid (gather make members) fun one other => gather make members [one, other] where
  absorb before inner after := by rw [gather_absorb recognises]
  rebracket left right := by
    have same : [left.join fun one other => gather make members [one, other],
          right.join fun one other => gather make members [one, other]].flatMap (splice members) =
        (left.pair right).flows.flatMap (splice members) := by
      rw [List.flatMap_cons, List.flatMap_singleton, splice_join recognises,
        splice_join recognises, Bracketing.flows, List.flatMap_append]
    exact congrArg (fun steps => (ofKind (make steps)).lower) same

end Gather

/-- The last of the steps that an expression is absorbed as stores its result. -/
theorem exists_getLast?_splice {flow : Flow} {key : String} (h : flow.outputKey? = some key) :
    ∃ last, (flow.splice sequenceMembers).getLast? = some last ∧ last.outputKey? = some key := by
  cases found : sequenceMembers flow.kind with
  | none =>
    have alone : flow.splice sequenceMembers = [flow] := by simp [splice, found]
    exact ⟨flow, by simp [alone], h⟩
  | some steps =>
    cases anonymous : flow.isAnonymous with
    | false => exact ⟨flow, by simp [splice, anonymous], h⟩
    | true =>
      have kind : flow.kind = .sequence steps := by
        revert found
        cases flow.kind <;> simp [sequenceMembers]
      have absorbed : flow.splice sequenceMembers = steps := by simp [splice, anonymous, found]
      rw [outputKey?_eq, kind] at h
      have stored : (steps.map outputKey?).getLast?.join = some key := h
      rw [List.getLast?_map, Option.join_eq_some_iff, Option.map_eq_some_iff] at stored
      rwa [absorbed]

/-- A step in front does not change where the result is stored. -/
theorem outputKey?_andThen {flow next : Flow} {key : String} (h : next.outputKey? = some key) :
    (flow.andThen next).outputKey? = some key := by
  obtain ⟨last, final, stored⟩ := exists_getLast?_splice h
  have steps : (flow.andThen next).kind =
      .sequence (flow.splice sequenceMembers ++ next.splice sequenceMembers) := by
    simp [andThen, sequence, ofKind, Tree.kind]
  rw [outputKey?_eq, steps]
  change ((flow.splice sequenceMembers ++ next.splice sequenceMembers).map
    outputKey?).getLast?.join = some key
  rw [List.getLast?_map, List.getLast?_append, final]
  exact stored

theorem branch_eq_of_outputKey? {flow : Flow} {key : String} (h : flow.outputKey? = some key)
    (routes : Routes) : flow.branch routes = .ok (flow.andThen (routes.toRoute key).toFlow) := by
  simp [branch, h]

/-- Sequences, parallel groups and fallbacks may be put together with brackets anywhere, and a step
in front of a choice by the result of another one may come before or after the choice is made. -/
theorem lower_regrouped :
    IsListMonoid sequence andThen ∧ IsListMonoid parallel alongside ∧
      IsListMonoid fallback orElse ∧
      ∀ (first source : Flow) (routes : Routes) (key : String), source.outputKey? = some key →
        ∃ whole inner, (first.andThen source).branch routes = .ok whole ∧
          source.branch routes = .ok inner ∧ whole.lower = (first.andThen inner).lower := by
  have sequences : IsListMonoid sequence andThen :=
    @isListMonoid_gather .sequence sequenceMembers fun _ => rfl
  refine ⟨sequences, @isListMonoid_gather .parallel parallelMembers fun _ => rfl,
    @isListMonoid_gather .fallback fallbackMembers fun _ => rfl,
    fun first source routes key known => ?_⟩
  refine ⟨_, _, branch_eq_of_outputKey? (outputKey?_andThen known) routes,
    branch_eq_of_outputKey? known routes, ?_⟩
  generalize (routes.toRoute key).toFlow = choice
  calc ((first.andThen source).andThen choice).lower
      = (sequence [first, source, choice]).lower :=
        sequences.rebracket (.pair (.single first) (.single source)) (.single choice)
    _ = (first.andThen (source.andThen choice)).lower :=
        (sequences.rebracket (.single first) (.pair (.single source) (.single choice))).symm

section Triage

/-- An anonymous sequence whose result is that of its last step. -/
def triageFlow : Flow :=
  (Agent.new "fetch").toFlow.andThen classifyAgent.toFlow

theorem lower_regrouped_triage :
    triageFlow.outputKey? = some "intent" ∧
      ∃ whole inner, ((Flow.tap []).andThen triageFlow).branch billingRoutes = .ok whole ∧
        triageFlow.branch billingRoutes = .ok inner ∧
        whole.lower = ((Flow.tap []).andThen inner).lower :=
  ⟨rfl, lower_regrouped.2.2.2 (Flow.tap []) triageFlow billingRoutes "intent" rfl⟩

end Triage

end Flow

end Workflow
