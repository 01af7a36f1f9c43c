import Workflow.Proofs.Flow.Expression
import Workflow.Proofs.Flow.Lowering

/-! Checkpoints: every loop with a condition has one at the end of its body, and nothing else has any.
With it, what can be said of every tree that an expression is completed to. -/
namespace Workflow

namespace Tree

variable {ν : Type} {mark : ν}

/-- A tree in which the checkpoints, all with the name `mark`, are the last steps of the loops that
end by a condition. The recursion leaves out the body of such a loop, which has a checkpoint itself,
and goes on with the other steps of the body. -/
inductive Checkpointed (mark : ν) : Tree ν → Prop where
  | plain {tree : Tree ν} (endless : ∀ body bound exit, tree.kind ≠ .loop body bound (some exit))
      (other : ∀ exit, tree.kind ≠ .tap (.checkpoint exit))
      (below : ∀ child ∈ tree.children, Checkpointed mark child) : Checkpointed mark tree
  | loop {tree body last : Tree ν} {steps : List (Tree ν)} {bound : UInt32} {exit : Predicate}
      (loop : tree.kind = .loop body bound (some exit))
      (group : body.kind = .sequence (steps ++ [last])) (name : last.name = mark)
      (check : last.kind = .tap (.checkpoint exit))
      (below : ∀ step ∈ steps, Checkpointed mark step) : Checkpointed mark tree

theorem Checkpointed.of_kind {tree other : Tree ν} (h : tree.Checkpointed mark)
    (same : other.kind = tree.kind) : other.Checkpointed mark := by
  cases h with
  | plain endless other below =>
    refine .plain (by rwa [same]) (by rwa [same]) ?_
    rwa [children, same]
  | loop loop group name check below => exact .loop (same.trans loop) group name check below

theorem Checkpointed.child {tree child : Tree ν} (h : tree.Checkpointed mark)
    (endless : ∀ body bound exit, tree.kind ≠ .loop body bound (some exit))
    (mem : child ∈ tree.children) : child.Checkpointed mark := by
  cases h with
  | plain _ _ below => exact below child mem
  | loop loop => exact absurd loop (endless _ _ _)

theorem children_of_loop {tree body : Tree ν} {bound : UInt32} {exit : Option Predicate}
    (h : tree.kind = .loop body bound exit) : tree.children = [body] := by
  rw [children, h]
  rfl

theorem children_of_tap {tree : Tree ν} {action : TapAction} (h : tree.kind = .tap action) :
    tree.children = [] := by
  rw [children, h]
  rfl

/-- The steps of a loop whose body ends in a step without steps below it. -/
theorem at?_loop_cases {tree body last step : Tree ν} {steps : List (Tree ν)} {bound : UInt32}
    {exit : Option Predicate} {place : Place} (loop : tree.kind = .loop body bound exit)
    (group : body.kind = .sequence (steps ++ [last])) (childless : last.children = [])
    (found : tree.at? place = some step) :
    (place = [] ∧ step = tree) ∨ (place = [0] ∧ step = body) ∨
      (place = [0, steps.length] ∧ step = last) ∨
      ∃ i rest inner, place = 0 :: i :: rest ∧ inner ∈ steps ∧ body.children[i]? = some inner ∧
        inner.at? rest = some step := by
  rcases place with - | ⟨k, place⟩
  · exact .inl ⟨rfl, (Option.some.inj found).symm⟩
  obtain ⟨child, first, inBody⟩ := at?_cons_eq_some.1 found
  obtain ⟨rfl, rfl⟩ : k = 0 ∧ body = child := by
    simpa [children_of_loop loop, List.getElem?_cons, and_comm] using first
  rcases place with - | ⟨i, rest⟩
  · exact .inr (.inl ⟨rfl, (Option.some.inj inBody).symm⟩)
  obtain ⟨inner, second, inStep⟩ := at?_cons_eq_some.1 inBody
  have there : (steps ++ [last])[i]? = some inner := by rwa [← children_of_sequence group]
  rcases Nat.lt_or_ge i steps.length with before | after
  · rw [List.getElem?_append_left before] at there
    exact .inr (.inr (.inr ⟨i, rest, inner, rfl, List.mem_of_getElem? there, second, inStep⟩))
  · obtain ⟨at_end, rfl⟩ : i - steps.length = 0 ∧ last = inner := by
      rw [List.getElem?_append_right after] at there
      simpa [List.getElem?_cons, and_comm] using there
    obtain rfl : i = steps.length := by omega
    rcases rest with - | ⟨j, rest⟩
    · exact .inr (.inr (.inl ⟨rfl, (Option.some.inj inStep).symm⟩))
    · obtain ⟨_, deeper, _⟩ := at?_cons_eq_some.1 inStep
      simp [childless] at deeper

theorem Checkpointed.exit_of_loop {tree : Tree ν} (h : tree.Checkpointed mark) :
    ∀ place step body bound exit, tree.at? place = some step →
      step.kind = .loop body bound (some exit) →
      ∃ steps last, body.kind = .sequence (steps ++ [last]) ∧ last.name = mark ∧
        last.kind = .tap (.checkpoint exit) := by
  induction h with
  | plain endless _ _ ih =>
    intro place step body bound exit found loop
    cases place with
    | nil =>
      obtain rfl := Option.some.inj found
      exact absurd loop (endless body bound exit)
    | cons i place =>
      obtain ⟨child, at_, found⟩ := at?_cons_eq_some.1 found
      exact ih child (List.mem_of_getElem? at_) place step body bound exit found loop
  | @loop tree group last steps bound condition outer members name check _ ih =>
    intro place step body inner exit found loop
    rcases at?_loop_cases outer members (children_of_tap check) found with
      ⟨-, rfl⟩ | ⟨-, rfl⟩ | ⟨-, rfl⟩ | ⟨i, rest, child, -, mem, -, found⟩
    · rw [outer] at loop
      cases loop
      exact ⟨steps, last, members, name, check⟩
    · simp [members] at loop
    · simp [check] at loop
    · exact ih child mem rest step body inner exit found loop

/-- Where a checkpoint can be: at the end of the body of a loop with the same condition. -/
def ClosesLoop (tree : Tree ν) (place : Place) (step : Tree ν) (exit : Predicate) : Prop :=
  ∃ above loop body bound steps, place = above ++ [0, List.length steps] ∧
    tree.at? above = some loop ∧ loop.kind = .loop body bound (some exit) ∧
    body.kind = .sequence (steps ++ [step])

theorem ClosesLoop.below {tree child step : Tree ν} {i : Nat} {place : Place} {exit : Predicate}
    (at_ : tree.children[i]? = some child) (h : child.ClosesLoop place step exit) :
    tree.ClosesLoop (i :: place) step exit := by
  obtain ⟨above, loop, body, bound, steps, rfl, found, kind, members⟩ := h
  refine ⟨i :: above, loop, body, bound, steps, rfl, ?_, kind, members⟩
  rw [at?_cons_of_child at_, found]

theorem Checkpointed.closesLoop {tree : Tree ν} (h : tree.Checkpointed mark) :
    ∀ place step exit, tree.at? place = some step → step.kind = .tap (.checkpoint exit) →
      tree.ClosesLoop place step exit := by
  induction h with
  | plain _ other _ ih =>
    intro place step exit found check
    cases place with
    | nil =>
      obtain rfl := Option.some.inj found
      exact absurd check (other exit)
    | cons i place =>
      obtain ⟨child, at_, found⟩ := at?_cons_eq_some.1 found
      exact (ih child (List.mem_of_getElem? at_) place step exit found check).below at_
  | @loop tree group last steps bound condition outer members name own _ ih =>
    intro place step exit found check
    have body : tree.children[0]? = some group := by rw [children_of_loop outer]; rfl
    rcases at?_loop_cases outer members (children_of_tap own) found with
      ⟨-, rfl⟩ | ⟨-, rfl⟩ | ⟨rfl, rfl⟩ | ⟨i, rest, child, rfl, mem, at_, found⟩
    · simp [outer] at check
    · simp [members] at check
    · obtain rfl : condition = exit := by simpa [own] using check
      exact ⟨[], tree, group, bound, steps, rfl, rfl, outer, members⟩
    · exact ((ih child mem rest step exit found check).below at_).below body

end Tree

namespace Flow

/-- An expression whose checkpoints are at the ends of its loops. -/
abbrev Checkpointed (flow : Flow) : Prop :=
  Tree.Checkpointed (some checkpointName) flow

theorem checkpointed_of_mem_splice {members : Kind Flow → Option (List Flow)}
    (gives : GivesMembers members) {flow step : Flow} (h : flow.Checkpointed)
    (mem : step ∈ flow.splice members) : step.Checkpointed := by
  have itself (mem : step ∈ [flow]) : step.Checkpointed := List.mem_singleton.1 mem ▸ h
  rw [splice] at mem
  split at mem
  · cases found : members flow.kind with
    | none => exact itself (by simpa [found] using mem)
    | some steps =>
      have among : step ∈ steps := by simpa [found] using mem
      have endless : ∀ body bound exit, flow.kind ≠ .loop body bound exit := by
        rcases gives flow.kind steps found with kind | kind | kind <;> simp [kind]
      rw [← (gives.children found).2] at among
      exact h.child (fun body bound exit => endless body bound (some exit)) among
  · exact itself mem

theorem checkpointed_of_mem_flatMap {members : Kind Flow → Option (List Flow)}
    (gives : GivesMembers members) {flows : List Flow} (each : ∀ flow ∈ flows, Checkpointed flow) :
    ∀ step ∈ flows.flatMap (splice members), Checkpointed step := by
  intro step mem
  obtain ⟨flow, among, mem⟩ := List.mem_flatMap.1 mem
  exact checkpointed_of_mem_splice gives (each flow among) mem

theorem checkpointed_sequence {steps : List Flow} (each : ∀ step ∈ steps, Checkpointed step) :
    (sequence steps).Checkpointed :=
  .plain nofun nofun (checkpointed_of_mem_flatMap givesMembers_sequence each)

theorem checkpointed_parallel {branches : List Flow}
    (each : ∀ branch ∈ branches, Checkpointed branch) : (parallel branches).Checkpointed :=
  .plain nofun nofun (checkpointed_of_mem_flatMap givesMembers_parallel each)

theorem checkpointed_fallback {options : List Flow}
    (each : ∀ option ∈ options, Checkpointed option) : (fallback options).Checkpointed :=
  .plain nofun nofun (checkpointed_of_mem_flatMap givesMembers_fallback each)

theorem checkpointed_route {route : Route}
    (each : ∀ arm ∈ route.toFlow.children, Checkpointed arm) : route.toFlow.Checkpointed :=
  .plain nofun nofun each

/-- A step around another one that is not left early. -/
theorem checkpointed_around {flow body : Flow} (children : flow.children = [body])
    (endless : ∀ body bound exit, flow.kind ≠ .loop body bound (some exit))
    (h : body.Checkpointed) : flow.Checkpointed := by
  refine .plain endless (fun exit check => ?_) fun child mem => ?_
  · simp [Tree.children_of_tap check] at children
  · rw [children, List.mem_singleton] at mem
    exact mem ▸ h

theorem splice_checkpoint (members : Kind Flow → Option (List Flow)) (exit : Predicate) :
    (checkpoint exit).splice members = [checkpoint exit] := by
  simp [splice, isAnonymous, checkpoint, named, Tree.name]

theorem checkpointed_repeatUntil {body : Flow} (h : body.Checkpointed) (exit : Predicate)
    (bound : UInt32) : (body.repeatUntil exit bound).Checkpointed := by
  have group : (body.andThen (checkpoint exit)).kind =
      .sequence (body.splice sequenceMembers ++ [checkpoint exit]) := by
    simp [andThen, sequence, ofKind, Tree.kind, splice_checkpoint]
  exact .loop rfl group rfl rfl fun step => checkpointed_of_mem_splice givesMembers_sequence h

/-- Completion leaves the checkpoints where they are. -/
theorem Checkpointed.outline {flow : Flow} (h : flow.Checkpointed) :
    Tree.Checkpointed checkpointName flow.outline := by
  induction h with
  | @plain flow endless other below ih =>
    refine .plain (fun body bound exit loop => ?_) (fun exit check => ?_) fun child among => ?_
    · rw [kind_outline, Kind.map_eq_loop] at loop
      obtain ⟨inner, loop, -⟩ := loop
      exact endless inner bound exit loop
    · rw [kind_outline, Kind.map_eq_tap] at check
      exact other exit check
    · rw [children_outline] at among
      obtain ⟨step, mem, rfl⟩ := List.mem_map.1 among
      exact ih step mem
  | @loop flow body last steps bound exit loop group name check _ ih =>
    have outer : (Flow.outline flow).kind = .loop (Flow.outline body) bound (some exit) := by
      rw [kind_outline, loop]
      rfl
    have members : (Flow.outline body).kind =
        .sequence (steps.map Flow.outline ++ [Flow.outline last]) := by
      simp [group, Kind.map]
    refine .loop outer members ?_ ?_ fun child among => ?_
    · rw [name_outline, name]
      rfl
    · rw [kind_outline, check]
      rfl
    · obtain ⟨step, mem, rfl⟩ := List.mem_map.1 among
      exact ih step mem

end Flow

theorem Expression.Built.checkpointed {expression : Expression} (h : expression.Built) :
    expression.flow.Checkpointed := by
  have all {expressions : List Expression} (each : ∀ one ∈ expressions, one.flow.Checkpointed) :
      ∀ flow ∈ expressions.map (·.flow), Flow.Checkpointed flow := by
    intro flow mem
    obtain ⟨one, among, rfl⟩ := List.mem_map.1 mem
    exact each one among
  induction h with
  | agent | tap | transform | gate | gateWithKey | capture | transfer =>
    exact .plain nofun nofun nofun
  | andThen _ _ first next => exact Flow.checkpointed_sequence (by simp [first, next])
  | alongside _ _ one other => exact Flow.checkpointed_parallel (by simp [one, other])
  | orElse _ _ one other => exact Flow.checkpointed_fallback (by simp [one, other])
  | sequence steps _ each => exact Flow.checkpointed_sequence (all each)
  | parallel branches _ each => exact Flow.checkpointed_parallel (all each)
  | fallback options _ each => exact Flow.checkpointed_fallback (all each)
  | race contenders _ each => exact .plain nofun nofun (all each)
  | times count _ body | timeout deadlineMs _ body | mapOver listKey itemKey outputKey _ body =>
    exact Flow.checkpointed_around rfl nofun body
  | repeatUntil exit bound _ body => exact Flow.checkpointed_repeatUntil body exit bound
  | retryIf condition bound _ body =>
    exact Flow.checkpointed_repeatUntil body (.not condition) bound
  | route key rules otherwise _ each =>
    exact Flow.checkpointed_route (Expression.flows_of_route key rules otherwise ▸ all each)
  | branch arms otherwise _ _ builds source each =>
    obtain ⟨key, -, rfl⟩ := Flow.branch_eq_ok builds
    have choice := Flow.checkpointed_route
      (Expression.flows_of_routes key arms otherwise ▸ all each)
    exact Flow.checkpointed_sequence (by simp [source, choice])
  | named name _ same => exact same.of_kind rfl
  | mapContract change _ same => exact same.of_kind rfl

/-- What holds at every step of a completed tree. -/
structure Node.Proper (tree : Node) : Prop where
  distinct : ∀ node ∈ tree.steps, (node.children.map (·.name)).Nodup
  nonempty : ∀ node ∈ tree.steps, node.kind.isComposite = true → node.children ≠ []
  bounded : ∀ node ∈ tree.steps, ∀ body bound exit, node.kind = .loop body bound exit → 1 ≤ bound
  /-- A loop with a condition ends its body with a checkpoint for it. -/
  checked : ∀ node ∈ tree.steps, ∀ body bound exit, node.kind = .loop body bound (some exit) →
    ∃ steps last, body.kind = .sequence (steps ++ [last]) ∧ last.name = checkpointName ∧
      last.kind = .tap (.checkpoint exit)
  /-- There are no other checkpoints. -/
  closes : ∀ place node exit, tree.at? place = some node → node.kind = .tap (.checkpoint exit) →
    tree.ClosesLoop place node exit

theorem Flow.WellFormed.proper {flow : Flow} (well : flow.WellFormed) (h : flow.Checkpointed) :
    flow.outline.Proper where
  distinct := well.distinct
  nonempty node mem composite childless := by
    rw [steps_outline] at mem
    obtain ⟨step, among, rfl⟩ := List.mem_map.1 mem
    rw [kind_outline, Kind.isComposite_map] at composite
    rw [children_outline, List.map_eq_nil_iff] at childless
    exact well.nonempty step among composite childless
  bounded node mem body bound exit loop := by
    rw [steps_outline] at mem
    obtain ⟨step, among, rfl⟩ := List.mem_map.1 mem
    rw [kind_outline, Kind.map_eq_loop] at loop
    obtain ⟨inner, loop, -⟩ := loop
    have positive : bound ≠ 0 := fun zero => well.bounded step among inner exit (zero ▸ loop)
    exact UInt32.pos_iff_ne_zero.2 positive
  checked node mem body bound exit loop := by
    obtain ⟨place, found⟩ := Tree.mem_steps_iff_at?.1 mem
    exact h.outline.exit_of_loop place node body bound exit found loop
  closes := h.outline.closesLoop

namespace Expression

/-- Exactly the well-formed expressions are completed, for any other one a fault of it is reported,
and completed trees are proper. -/
theorem lower_spec {expression : Expression} (h : expression.Built) :
    ((∃ tree, expression.flow.lower = .ok tree) ↔ expression.flow.WellFormed) ∧
      (¬ expression.flow.WellFormed → ∃ error, expression.flow.lower = .error error ∧
        ∃ step ∈ expression.flow.steps, Flow.Fault step error) ∧
      ∀ tree, expression.flow.lower = .ok tree → tree = expression.flow.outline ∧ tree.Proper := by
  refine ⟨?_, fun ill => ?_, fun tree completed => ?_⟩
  · simp [Flow.lower_eq_ok_iff]
  · rcases Flow.lower_cases expression.flow with ⟨well, _⟩ | ⟨error, faulty, fails⟩
    · exact absurd well ill
    · exact ⟨error, fails, faulty⟩
  · obtain ⟨well, rfl⟩ := Flow.lower_eq_ok_iff.1 completed
    exact ⟨rfl, well.proper h.checkpointed⟩

/-- The same step twice in a row. -/
def draftTwice : Expression where
  flow := draftAgent.toFlow.andThen draftAgent.toFlow
  inner := ⟨[draftAgent.toFlow, draftAgent.toFlow], []⟩

theorem lower_spec_reviewLoop :
    reviewLoop.Built ∧ reviewLoop.flow.WellFormed ∧ reviewLoop.flow.outline.Proper ∧
      draftTwice.Built ∧ ¬ draftTwice.flow.WellFormed := by
  have twice : draftTwice.Built := (Built.agent draftAgent).andThen (.agent draftAgent)
  have fails : draftTwice.flow.lower = .error (.duplicateName "draft_then_draft" "draft") := rfl
  have once := lower_spec built_reviewLoop
  refine ⟨built_reviewLoop, once.1.1 ⟨_, rfl⟩, (once.2.2 _ rfl).2, twice, fun well => ?_⟩
  obtain ⟨tree, completed⟩ := (lower_spec twice).1.2 well
  rw [fails] at completed
  cases completed

end Expression

end Workflow
