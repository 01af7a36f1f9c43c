import Workflow.Flow.Naming

/-! Completing an expression to a tree in which every step has a name. -/
namespace Workflow

/-- Puts the results for the steps below together, or stops at the first failure. -/
def Kind.collect {ε α : Type} : Kind (Except ε α) → Except ε (Kind α)
  | .leaf spec => .ok (.leaf spec)
  | .sequence children => return .sequence (← children.mapM id)
  | .parallel children => return .parallel (← children.mapM id)
  | .loop body bound exit => return .loop (← body) bound exit
  | .transform ops => .ok (.transform ops)
  | .tap action => .ok (.tap action)
  | .fallback children => return .fallback (← children.mapM id)
  | .race children => return .race (← children.mapM id)
  | .gate predicate message approvalKey => .ok (.gate predicate message approvalKey)
  | .mapOver body listKey itemKey outputKey => return .mapOver (← body) listKey itemKey outputKey
  | .timeout body deadlineMs => return .timeout (← body) deadlineMs
  | .route key rules otherwise => do
    let rules ← rules.mapM fun rule => return Rule.mk rule.predicate (← rule.target)
    let otherwise ← otherwise.mapM id
    return .route key rules otherwise
  | .transfer target condition => .ok (.transfer target condition)
  | .capture key => .ok (.capture key)

/-- Whether the step is a group without members. -/
def Kind.isEmptyGroup {α : Type} : Kind α → Bool
  | .sequence children | .parallel children | .fallback children | .race children => children.isEmpty
  | .route _ rules otherwise => rules.isEmpty && otherwise.isNone
  | _ => false

/-- The first name that stands in a list a second time. -/
def firstRepeat? : List String → Option String
  | [] => none
  | names => go [] names
where
  go (seen : List String) : List String → Option String
    | [] => none
    | name :: rest => if seen.contains name then some name else go (name :: seen) rest

namespace Flow

/-- The bound of a loop is at least one. -/
def checkBound (name : String) (kind : Kind Node) : Except Error Unit :=
  match kind with
  | .loop _ bound _ => if bound = 0 then .error (.invalidBound name bound) else .ok ()
  | _ => .ok ()

/-- The names of the steps directly below a step differ. -/
def checkSiblings (name : String) (kind : Kind Node) : Except Error Unit :=
  match firstRepeat? (kind.children.map (·.name)) with
  | some twice => .error (.duplicateName name twice)
  | none => .ok ()

/-- Completes a step, given the results for the steps below it. -/
def lowerStep (flow : Flow) (below : Kind (Except Error Node)) : Except Error Node := do
  if flow.kind.isEmptyGroup then throw (.emptyComposite flow.kind.tag)
  let kind ← below.collect
  let name := flow.name.getD (Naming.derive kind)
  checkBound name kind
  checkSiblings name kind
  return .mk name flow.contract kind

/-- The complete tree, or the first error in the order of the steps. -/
def lower (flow : Flow) : Except Error Node :=
  flow.fold lowerStep

end Flow

end Workflow
