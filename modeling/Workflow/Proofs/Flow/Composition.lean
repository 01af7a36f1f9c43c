import Mathlib.Data.List.Forall2
import Workflow.Proofs.Flow.Expression
import Workflow.Proofs.Flow.Lowering
import Workflow.Proofs.Tree.Replacement

/-! What is left of an expression in the tree that it is completed to: every step that it was put
together from, once and in the order in which it was written down. -/
namespace Workflow

/-- The completed step is the one that was given, with all that was declared for it. -/
structure Flow.CarriedBy (origin : Flow) (node : Node) : Prop where
  name : node.name = origin.name.getD (Naming.derive node.kind)
  contract : node.contract = origin.contract
  /-- What the step does is the same, apart from the steps below it. -/
  kind : node.kind.map (fun _ => ()) = origin.kind.map fun _ => ()

namespace Flow

theorem carriedBy_outline (flow : Flow) : flow.CarriedBy flow.outline where
  name := name_outline flow
  contract := contract_outline flow
  kind := by rw [kind_outline, Kind.map_map]

theorem forall₂_carriedBy (flows : List Flow) :
    List.Forall₂ CarriedBy flows (flows.map outline) := by
  induction flows with
  | nil => exact .nil
  | cons first rest ih => exact .cons (carriedBy_outline first) ih

/-- No group is mistaken for a primitive for want of steps below it. -/
theorem WellFormed.isEmpty_children {flow : Flow} (h : flow.WellFormed) :
    ∀ step ∈ flow.steps, (outline step).children.isEmpty = isPrimitive step := by
  intro step mem
  rw [children_outline, List.isEmpty_map, isPrimitive]
  cases composite : step.kind.isComposite with
  | true => simpa using h.nonempty step mem composite
  | false =>
    have childless : step.children = [] := Kind.children_eq_nil step.kind composite
    simp [childless]

theorem WellFormed.childless_eq {flow : Flow} (h : flow.WellFormed) :
    flow.outline.steps.filter (·.children.isEmpty) =
      (flow.steps.filter isPrimitive).map outline := by
  rw [steps_outline, List.filter_map]
  congr 1
  exact List.filter_congr h.isEmpty_children

end Flow

namespace Expression

/-- The nodes without steps below them carry the primitives of the expression, in the order in which
these were written down. Each node carries one step, and the steps that are groups with a name or a
contract are those that the expression was put together from. -/
theorem carriedBy_of_lower {expression : Expression} {tree : Node} (h : expression.Built)
    (lowered : expression.flow.lower = .ok tree) :
    List.Forall₂ Flow.CarriedBy expression.parts.primitives
        (tree.steps.filter (·.children.isEmpty)) ∧
      List.Forall₂ Flow.CarriedBy expression.flow.steps tree.steps ∧
      expression.flow.steps.filter Flow.isOwnGroup = expression.parts.groups := by
  obtain ⟨well, rfl⟩ := Flow.lower_eq_ok_iff.1 lowered
  have parts := h.faithful.ofSteps_steps
  have primitives : expression.flow.steps.filter Flow.isPrimitive = expression.parts.primitives :=
    congrArg Parts.primitives parts
  refine ⟨?_, ?_, congrArg Parts.groups parts⟩
  · rw [well.childless_eq, primitives]
    exact Flow.forall₂_carriedBy _
  · rw [Flow.steps_outline]
    exact Flow.forall₂_carriedBy _

theorem carriedBy_of_lower_reviewLoop :
    reviewLoop.Built ∧ reviewLoop.flow.lower = .ok reviewLoop.flow.outline ∧
      List.Forall₂ Flow.CarriedBy reviewLoop.parts.primitives
        (reviewLoop.flow.outline.steps.filter (·.children.isEmpty)) ∧
      List.Forall₂ Flow.CarriedBy reviewLoop.flow.steps reviewLoop.flow.outline.steps ∧
      reviewLoop.flow.steps.filter Flow.isOwnGroup = [checkGroup] :=
  ⟨built_reviewLoop, rfl, carriedBy_of_lower built_reviewLoop rfl⟩

end Expression

end Workflow
