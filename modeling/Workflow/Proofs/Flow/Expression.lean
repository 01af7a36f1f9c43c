import Workflow.Flow.Builder
import Workflow.Proofs.Tree.Occurrence

/-! Expressions together with what they were put together from. A group may absorb another one of its
kind, but only one that has neither a name nor a contract, and none of the steps in it gets lost. -/
namespace Workflow

/-- A step that never has steps below it. -/
def Flow.isPrimitive (flow : Flow) : Bool :=
  !flow.kind.isComposite

/-- A group with a name or a contract of its own. -/
def Flow.isOwnGroup (flow : Flow) : Bool :=
  flow.kind.isComposite && !flow.isAnonymous

/-- What expressions consist of, in the order in which they are written down. -/
@[ext] structure Parts where
  primitives : List Flow
  /-- The groups with a name or a contract, each before those inside of it. -/
  groups : List Flow

namespace Parts

def empty : Parts := ⟨[], []⟩

def append (first second : Parts) : Parts :=
  ⟨first.primitives ++ second.primitives, first.groups ++ second.groups⟩

instance : Append Parts := ⟨append⟩

/-- What the listed steps amount to. -/
def ofSteps (steps : List Flow) : Parts :=
  ⟨steps.filter Flow.isPrimitive, steps.filter Flow.isOwnGroup⟩

@[simp] theorem append_empty (parts : Parts) : parts ++ empty = parts := by
  ext1 <;> exact List.append_nil _

@[simp] theorem empty_append (parts : Parts) : empty ++ parts = parts := rfl

theorem ofSteps_append (first second : List Flow) :
    ofSteps (first ++ second) = ofSteps first ++ ofSteps second := by
  ext1 <;> exact List.filter_append _ _

theorem ofSteps_cons (first : Flow) (rest : List Flow) :
    ofSteps (first :: rest) = ofSteps [first] ++ ofSteps rest :=
  ofSteps_append [first] rest

end Parts

/-- An expression with the parts of the expressions that it was put together from. -/
structure Expression where
  flow : Flow
  inner : Parts

namespace Expression

/-- The expression itself counts as well. -/
def parts (expression : Expression) : Parts :=
  .ofSteps [expression.flow] ++ expression.inner

/-- What several expressions consist of, one after the other. -/
def allParts (expressions : List Expression) : Parts :=
  ⟨expressions.flatMap (·.parts.primitives), expressions.flatMap (·.parts.groups)⟩

/-- The expressions that can be put together, each with what it was put together from. -/
inductive Built : Expression → Prop where
  | agent (agent : Agent) : Built ⟨agent.toFlow, .empty⟩
  | tap (keys : List String) : Built ⟨.tap keys, .empty⟩
  | transform (ops : List StateOp) : Built ⟨.transform ops, .empty⟩
  | gate (predicate : Predicate) (message : String) : Built ⟨.gate predicate message, .empty⟩
  | gateWithKey (predicate : Predicate) (message approvalKey : String) :
    Built ⟨.gateWithKey predicate message approvalKey, .empty⟩
  | capture (key : String) : Built ⟨.capture key, .empty⟩
  | transfer (target : String) (condition : Option Predicate) :
    Built ⟨.transfer target condition, .empty⟩
  | andThen {first next : Expression} : first.Built → next.Built →
    Built ⟨first.flow.andThen next.flow, allParts [first, next]⟩
  | alongside {one other : Expression} : one.Built → other.Built →
    Built ⟨one.flow.alongside other.flow, allParts [one, other]⟩
  | orElse {one other : Expression} : one.Built → other.Built →
    Built ⟨one.flow.orElse other.flow, allParts [one, other]⟩
  | sequence (steps : List Expression) : (∀ step ∈ steps, step.Built) →
    Built ⟨.sequence (steps.map (·.flow)), allParts steps⟩
  | parallel (branches : List Expression) : (∀ branch ∈ branches, branch.Built) →
    Built ⟨.parallel (branches.map (·.flow)), allParts branches⟩
  | fallback (options : List Expression) : (∀ option ∈ options, option.Built) →
    Built ⟨.fallback (options.map (·.flow)), allParts options⟩
  | race (contenders : List Expression) : (∀ contender ∈ contenders, contender.Built) →
    Built ⟨.race (contenders.map (·.flow)), allParts contenders⟩
  | times {body : Expression} (count : UInt32) : body.Built →
    Built ⟨body.flow.times count, body.parts⟩
  /-- The checkpoint comes directly after the steps of the body. -/
  | repeatUntil {body : Expression} (exit : Predicate) (bound : UInt32) : body.Built →
    Built ⟨body.flow.repeatUntil exit bound, body.parts ++ ⟨[.checkpoint exit], []⟩⟩
  | retryIf {body : Expression} (condition : Predicate) (bound : UInt32) : body.Built →
    Built ⟨body.flow.retryIf condition bound,
      body.parts ++ ⟨[.checkpoint (.not condition)], []⟩⟩
  | timeout {body : Expression} (deadlineMs : UInt64) : body.Built →
    Built ⟨body.flow.timeout deadlineMs, body.parts⟩
  | mapOver {body : Expression} (listKey itemKey outputKey : String) : body.Built →
    Built ⟨(MapOver.mk listKey body.flow itemKey outputKey).toFlow, body.parts⟩
  | route (key : String) (rules : List (Rule Expression)) (otherwise : Option Expression) :
    (∀ arm ∈ rules.map (·.target) ++ otherwise.toList, arm.Built) →
    Built ⟨(Route.mk key (rules.map fun rule => ⟨rule.predicate, rule.target.flow⟩)
        (otherwise.map (·.flow))).toFlow,
      allParts (rules.map (·.target) ++ otherwise.toList)⟩
  | branch {source : Expression} {flow : Flow} (arms : List (Json × Expression))
    (otherwise : Option Expression) : source.Built →
    (∀ arm ∈ arms.map (·.2) ++ otherwise.toList, arm.Built) →
    source.flow.branch ⟨arms.map fun (value, arm) => (value, arm.flow), otherwise.map (·.flow)⟩ =
      .ok flow →
    Built ⟨flow, allParts (source :: (arms.map (·.2) ++ otherwise.toList))⟩
  | named {expression : Expression} (name : String) : expression.Built →
    Built ⟨expression.flow.named name, expression.inner⟩
  | mapContract {expression : Expression} (change : Contract → Contract) : expression.Built →
    Built ⟨expression.flow.mapContract change, expression.inner⟩

@[simp] theorem allParts_cons (first : Expression) (rest : List Expression) :
    allParts (first :: rest) = first.parts ++ allParts rest := rfl

end Expression

namespace Flow

@[simp] theorem isAnonymous_ofKind (kind : Kind Flow) : (ofKind kind).isAnonymous = true := by
  simp [isAnonymous, ofKind, Tree.name, Tree.contract, Contract.isEmpty]

/-- What is not kept apart from a group around it does not count itself. -/
theorem ofSteps_anonymous {flow : Flow} (composite : flow.kind.isComposite = true)
    (anonymous : flow.isAnonymous = true) : Parts.ofSteps [flow] = .empty := by
  simp [Parts.ofSteps, Parts.empty, isPrimitive, isOwnGroup, composite, anonymous]

theorem branch_eq_ok {source flow : Flow} {routes : Routes} (h : source.branch routes = .ok flow) :
    ∃ key, source.outputKey? = some key ∧ flow = source.andThen (routes.toRoute key).toFlow := by
  cases known : source.outputKey? with
  | none => simp [branch, known] at h
  | some key => exact ⟨key, rfl, by simpa [branch, known] using h.symm⟩

/-- The function gives the steps of groups, if only of some. -/
def GivesMembers (members : Kind Flow → Option (List Flow)) : Prop :=
  ∀ kind steps, members kind = some steps →
    kind = .sequence steps ∨ kind = .parallel steps ∨ kind = .fallback steps

theorem givesMembers_sequence : GivesMembers sequenceMembers := by
  intro kind steps h
  cases kind <;> simp_all [sequenceMembers]

theorem givesMembers_parallel : GivesMembers parallelMembers := by
  intro kind steps h
  cases kind <;> simp_all [parallelMembers]

theorem givesMembers_fallback : GivesMembers fallbackMembers := by
  intro kind steps h
  cases kind <;> simp_all [fallbackMembers]

theorem GivesMembers.children {members : Kind Flow → Option (List Flow)} {kind : Kind Flow}
    {steps : List Flow} (gives : GivesMembers members) (h : members kind = some steps) :
    kind.isComposite = true ∧ kind.children = steps := by
  rcases gives kind steps h with rfl | rfl | rfl <;> exact ⟨rfl, rfl⟩

/-- A group is absorbed with everything in it, and only if it does not count itself. -/
theorem ofSteps_splice {members : Kind Flow → Option (List Flow)} (gives : GivesMembers members)
    (flow : Flow) :
    Parts.ofSteps ((flow.splice members).flatMap Tree.steps) = .ofSteps flow.steps := by
  cases anonymous : flow.isAnonymous with
  | false => simp [splice, anonymous]
  | true =>
    cases found : members flow.kind with
    | none => simp [splice, anonymous, found]
    | some steps =>
      obtain ⟨composite, rfl⟩ := gives.children found
      have absorbed : flow.splice members = flow.kind.children := by
        simp [splice, anonymous, found]
      rw [absorbed, Tree.steps_eq, Parts.ofSteps_cons, ofSteps_anonymous composite anonymous,
        Parts.empty_append]
      rfl

end Flow

namespace Expression

/-- The steps below the expression are what it was put together from. -/
def Faithful (expression : Expression) : Prop :=
  .ofSteps (expression.flow.children.flatMap Tree.steps) = expression.inner

theorem Faithful.ofSteps_steps {expression : Expression} (h : expression.Faithful) :
    .ofSteps expression.flow.steps = expression.parts := by
  rw [Tree.steps_eq, Parts.ofSteps_cons, h, parts]

/-- A step whose children come from other expressions, in their order, consists of these. -/
theorem faithful_of_children {flow : Flow} {expressions : List Expression}
    {absorb : Flow → List Flow}
    (children : flow.children = (expressions.map (·.flow)).flatMap absorb)
    (keeps : ∀ flow, Parts.ofSteps ((absorb flow).flatMap Tree.steps) = .ofSteps flow.steps)
    (each : ∀ expression ∈ expressions, expression.Faithful) :
    Faithful ⟨flow, allParts expressions⟩ := by
  rw [Faithful, children]
  clear children
  induction expressions with
  | nil => rfl
  | cons first rest ih =>
    have head := each first List.mem_cons_self
    rw [List.map_cons, List.flatMap_cons, List.flatMap_append, Parts.ofSteps_append, keeps,
      head.ofSteps_steps, ih fun expression mem => each expression (List.mem_cons_of_mem _ mem),
      allParts_cons]

theorem faithful_of_direct {flow : Flow} {expressions : List Expression}
    (children : flow.children = expressions.map (·.flow))
    (each : ∀ expression ∈ expressions, expression.Faithful) :
    Faithful ⟨flow, allParts expressions⟩ :=
  @faithful_of_children flow expressions (fun flow => [flow]) (by simpa using children)
    (fun flow => by simp) each

theorem faithful_of_single {flow : Flow} {body : Expression}
    (children : flow.children = [body.flow]) (h : body.Faithful) : Faithful ⟨flow, body.parts⟩ := by
  have inner : allParts [body] = body.parts := Parts.append_empty body.parts
  rw [← inner]
  exact faithful_of_direct children fun expression mem => List.mem_singleton.1 mem ▸ h

theorem faithful_sequence {steps : List Expression} (each : ∀ step ∈ steps, step.Faithful) :
    Faithful ⟨.sequence (steps.map (·.flow)), allParts steps⟩ :=
  faithful_of_children rfl (Flow.ofSteps_splice Flow.givesMembers_sequence) each

theorem faithful_parallel {branches : List Expression}
    (each : ∀ branch ∈ branches, branch.Faithful) :
    Faithful ⟨.parallel (branches.map (·.flow)), allParts branches⟩ :=
  faithful_of_children rfl (Flow.ofSteps_splice Flow.givesMembers_parallel) each

theorem faithful_fallback {options : List Expression}
    (each : ∀ option ∈ options, option.Faithful) :
    Faithful ⟨.fallback (options.map (·.flow)), allParts options⟩ :=
  faithful_of_children rfl (Flow.ofSteps_splice Flow.givesMembers_fallback) each

/-- Something put together without a name or a contract consists of what it was put together from. -/
theorem parts_of_anonymous {flow : Flow} {inner : Parts} (composite : flow.kind.isComposite = true)
    (anonymous : flow.isAnonymous = true) : parts ⟨flow, inner⟩ = inner := by
  rw [parts, Flow.ofSteps_anonymous composite anonymous, Parts.empty_append]

theorem faithful_around {flow group : Flow} {inner : Parts} (children : flow.children = [group])
    (composite : group.kind.isComposite = true) (anonymous : group.isAnonymous = true)
    (h : Faithful ⟨group, inner⟩) : Faithful ⟨flow, inner⟩ := by
  have around := @faithful_of_single flow ⟨group, inner⟩ children h
  rwa [parts_of_anonymous composite anonymous] at around

theorem faithful_repeatUntil {body : Expression} (exit : Predicate) (bound : UInt32)
    (h : body.Faithful) :
    Faithful ⟨body.flow.repeatUntil exit bound, body.parts ++ ⟨[.checkpoint exit], []⟩⟩ := by
  have checkpoint : Faithful ⟨.checkpoint exit, .empty⟩ := rfl
  have steps : Faithful ⟨body.flow.andThen (.checkpoint exit),
      body.parts ++ ⟨[.checkpoint exit], []⟩⟩ :=
    @faithful_sequence [body, ⟨.checkpoint exit, .empty⟩] (by simp [h, checkpoint])
  exact faithful_around rfl rfl (Flow.isAnonymous_ofKind _) steps

theorem flows_of_route (key : String) (rules : List (Rule Expression))
    (otherwise : Option Expression) :
    (rules.map (·.target) ++ otherwise.toList).map (·.flow) =
      (Route.mk key (rules.map fun rule => ⟨rule.predicate, rule.target.flow⟩)
        (otherwise.map (·.flow))).toFlow.children := by
  cases otherwise <;> simp [Route.toFlow, Flow.ofKind, Tree.children, Tree.kind, Kind.children]

theorem flows_of_routes (key : String) (arms : List (Json × Expression))
    (otherwise : Option Expression) :
    (arms.map (·.2) ++ otherwise.toList).map (·.flow) =
      ((Routes.mk (arms.map fun (value, arm) => (value, arm.flow))
        (otherwise.map (·.flow))).toRoute key).toFlow.children := by
  cases otherwise <;>
    simp [Routes.toRoute, Route.toFlow, Flow.ofKind, Tree.children, Tree.kind, Kind.children,
      Function.comp_def]

/-- The choice is not a group of its own, so that only its arms count. -/
theorem faithful_branch {source : Expression} {route : Route} {arms : List Expression}
    (children : arms.map (·.flow) = route.toFlow.children) (h : source.Faithful)
    (each : ∀ arm ∈ arms, arm.Faithful) :
    Faithful ⟨source.flow.andThen route.toFlow, allParts (source :: arms)⟩ := by
  have choice : Faithful ⟨route.toFlow, allParts arms⟩ := faithful_of_direct children.symm each
  have both : Faithful ⟨source.flow.andThen route.toFlow,
      source.parts ++ (parts ⟨route.toFlow, allParts arms⟩ ++ .empty)⟩ :=
    @faithful_sequence [source, ⟨route.toFlow, allParts arms⟩] (by simp [h, choice])
  have own : parts ⟨route.toFlow, allParts arms⟩ = allParts arms :=
    parts_of_anonymous rfl (Flow.isAnonymous_ofKind _)
  rwa [own, Parts.append_empty] at both

theorem Built.faithful {expression : Expression} (h : expression.Built) : expression.Faithful := by
  induction h with
  | andThen _ _ first next => exact @faithful_sequence [_, _] (by simp [first, next])
  | alongside _ _ one other => exact @faithful_parallel [_, _] (by simp [one, other])
  | orElse _ _ one other => exact @faithful_fallback [_, _] (by simp [one, other])
  | sequence steps _ each => exact faithful_sequence each
  | parallel branches _ each => exact faithful_parallel each
  | fallback options _ each => exact faithful_fallback each
  | race contenders _ each => exact faithful_of_direct rfl each
  | times count _ body | timeout deadlineMs _ body | mapOver listKey itemKey outputKey _ body =>
    exact faithful_of_single rfl body
  | repeatUntil exit bound _ body => exact faithful_repeatUntil exit bound body
  | retryIf condition bound _ body => exact faithful_repeatUntil (.not condition) bound body
  | route key rules otherwise _ each =>
    exact faithful_of_direct (flows_of_route key rules otherwise).symm each
  | branch arms otherwise _ _ builds source each =>
    obtain ⟨key, -, rfl⟩ := Flow.branch_eq_ok builds
    exact faithful_branch (flows_of_routes key arms otherwise) source each
  | named name _ same => exact same
  | mapContract change _ same => exact same
  | _ => rfl

section Review

def draftAgent : Agent :=
  (Agent.new "draft").mapContract (·.addReads ["topic"])

def checkGroup : Flow :=
  (((Agent.new "facts").toFlow.alongside (Agent.new "tone").toFlow).named "checks").mapContract
    (·.addWrites ["report"])

/-- A draft is checked in two ways at once until it is approved. -/
def reviewLoop : Expression where
  flow := (draftAgent.toFlow.andThen checkGroup).repeatUntil (.truthy "approved") 3
  inner :=
    ⟨[draftAgent.toFlow, (Agent.new "facts").toFlow, (Agent.new "tone").toFlow,
      .checkpoint (.truthy "approved")], [checkGroup]⟩

theorem built_reviewLoop : reviewLoop.Built :=
  have checks := ((Built.agent (.new "facts")).alongside (.agent (.new "tone"))).named "checks"
  ((Built.agent draftAgent).andThen (checks.mapContract (·.addWrites ["report"]))).repeatUntil
    (.truthy "approved") 3

end Review

end Expression

end Workflow
