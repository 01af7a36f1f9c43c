import Workflow.Tree.Basic

/-! Every tree compares equal to itself. The comparison goes by the values of numbers, and no number is
different from itself. -/
namespace Workflow

theorem Number.Binary.sameValue_self {format : Format} (x : Binary format) : x.sameValue x = true := by
  simp [sameValue]

instance : ReflBEq Number where
  rfl := by
    intro number
    cases number with
    | integer n => exact beq_self_eq_true n
    | double x => exact x.sameValue_self
    | single x => exact x.sameValue_self

namespace Json

mutual

theorem equal_self : ∀ value : Json, value.equal value = true
  | .null => rfl
  | .bool value => beq_self_eq_true value
  | .number value => beq_self_eq_true value
  | .string text => beq_self_eq_true text
  | .array elements => equalElements_self elements
  | .object fields => equalFields_self fields

theorem equalElements_self : ∀ elements : List Json, equalElements elements elements = true
  | [] => rfl
  | first :: rest => by rw [equalElements, equal_self first, equalElements_self rest, Bool.and_self]

theorem equalFields_self : ∀ fields : List (String × Json), equalFields fields fields = true
  | [] => rfl
  | (name, value) :: rest => by
    rw [equalFields, beq_self_eq_true, equal_self value, equalFields_self rest, Bool.and_self,
      Bool.and_self]

end

instance : ReflBEq Json :=
  ⟨equal_self _⟩

end Json

namespace Predicate

mutual

theorem equal_self : ∀ predicate : Predicate, predicate.equal predicate = true
  | .truthy key => beq_self_eq_true key
  | .present key => beq_self_eq_true key
  | .equals key value => by rw [equal, beq_self_eq_true, beq_self_eq_true, Bool.and_self]
  | .contains key needle => by rw [equal, beq_self_eq_true, beq_self_eq_true, Bool.and_self]
  | .not inner => equal_self inner
  | .all of => equalLists_self of
  | .any of => equalLists_self of

theorem equalLists_self : ∀ predicates : List Predicate, equalLists predicates predicates = true
  | [] => rfl
  | first :: rest => by rw [equalLists, equal_self first, equalLists_self rest, Bool.and_self]

end

instance : ReflBEq Predicate :=
  ⟨equal_self _⟩

end Predicate

instance : ReflBEq StateOp where
  rfl := by
    intro op
    change op.equal op = true
    cases op <;> simp [StateOp.equal]

theorem Generation.sameSingle_self (setting : Option Number.Single) :
    sameSingle setting setting = true := by
  rcases setting with - | value | negative
  · rfl
  · exact value.sameValue_self
  · exact beq_self_eq_true negative

instance : ReflBEq Generation where
  rfl := by
    intro generation
    change generation.equal generation = true
    simp [Generation.equal, Generation.sameSingle_self]

instance : ReflBEq AgentSpec where
  rfl := by
    intro spec
    change spec.equal spec = true
    simp [AgentSpec.equal]

instance : ReflBEq TapAction where
  rfl := by
    intro action
    change action.equal action = true
    cases action <;> simp [TapAction.equal]

namespace Kind

variable {α β : Type} {same : α → β → Bool} {f : β → α}

theorem equalLists_map : ∀ {parts : List β}, (∀ part ∈ parts, same (f part) part = true) →
    equalWith.equalLists same (parts.map f) parts = true
  | [], _ => rfl
  | first :: rest, h => by
    obtain ⟨here, others⟩ := List.forall_mem_cons.1 h
    rw [List.map_cons, equalWith.equalLists, here, equalLists_map others, Bool.and_self]

theorem equalRules_map : ∀ {rules : List (Rule β)},
    (∀ rule ∈ rules, same (f rule.target) rule.target = true) →
      equalWith.equalRules same (rules.map fun rule => ⟨rule.predicate, f rule.target⟩) rules = true
  | [], _ => rfl
  | first :: rest, h => by
    obtain ⟨here, others⟩ := List.forall_mem_cons.1 h
    rw [List.map_cons, equalWith.equalRules, beq_self_eq_true, here, equalRules_map others,
      Bool.and_self, Bool.and_self]

/-- A kind agrees with itself if its parts do. -/
theorem equalWith_map {kind : Kind β} (h : ∀ part ∈ kind.children, same (f part) part = true) :
    (kind.map f).equalWith same kind = true := by
  cases kind with
  | sequence | parallel | fallback | race => exact equalLists_map h
  | loop body _ _ | mapOver body _ _ _ | timeout body _ =>
    have here : same (f body) body = true := h body (List.mem_singleton_self body)
    simp [map, equalWith, here]
  | route key rules otherwise =>
    have arms : equalWith.equalRules same (rules.map fun rule => ⟨rule.predicate, f rule.target⟩)
        rules = true :=
      equalRules_map fun rule mem => h rule.target (List.mem_append_left _ (List.mem_map_of_mem mem))
    cases otherwise with
    | none => simp [map, equalWith, equalWith.equalOptions, arms]
    | some target =>
      have here : same (f target) target = true :=
        h target (List.mem_append_right _ (List.mem_singleton_self target))
      simp [map, equalWith, equalWith.equalOptions, arms, here]
  | leaf | transform | tap | gate | transfer | capture => simp [map, equalWith]

end Kind

namespace Tree

variable {ν : Type} [BEq ν] [ReflBEq ν]

theorem equal_self (tree : Tree ν) : tree.equal tree = true := by
  induction tree using Tree.induction with
  | step tree ih =>
    have below : ((tree.kind.map equal).equalWith (fun same part => same part) tree.kind) = true :=
      Kind.equalWith_map ih
    rw [equal, fold_eq]
    change (tree.name == tree.name && tree.contract == tree.contract &&
      (tree.kind.map equal).equalWith (fun same part => same part) tree.kind) = true
    rw [beq_self_eq_true, beq_self_eq_true, below, Bool.and_self, Bool.and_self]

instance : ReflBEq (Tree ν) :=
  ⟨equal_self _⟩

end Tree

end Workflow
