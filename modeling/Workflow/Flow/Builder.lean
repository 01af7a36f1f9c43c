import Workflow.Flow.Slug
import Workflow.Flow.Basic
import Workflow.Predicate.Basic

/-! Builders for steps with many settings. -/
namespace Workflow

/-- A model-backed step under construction. -/
structure Agent where
  name : String
  spec : AgentSpec
  contract : Contract

namespace Agent

def new (name : String) : Agent :=
  ⟨name, .empty, .empty⟩

def mapSpec (agent : Agent) (change : AgentSpec → AgentSpec) : Agent :=
  { agent with spec := change agent.spec }

def mapContract (agent : Agent) (change : Contract → Contract) : Agent :=
  { agent with contract := change agent.contract }

def mapGeneration (agent : Agent) (change : Generation → Generation) : Agent :=
  agent.mapSpec fun spec => { spec with generation := some (change (spec.generation.getD .empty)) }

def addTools (agent : Agent) (tools : List String) : Agent :=
  agent.mapSpec fun spec => { spec with tools := spec.tools ++ tools }

def toFlow (agent : Agent) : Flow :=
  .mk (some agent.name) agent.contract (.leaf agent.spec)

end Agent

namespace Contract

def addReads (contract : Contract) (keys : List String) : Contract :=
  { contract with reads := contract.reads.insertAll keys }

def addWrites (contract : Contract) (keys : List String) : Contract :=
  { contract with writes := contract.writes.insertAll keys }

end Contract

/-- A step for each item of a list, under construction. -/
structure MapOver where
  listKey : String
  body : Flow
  itemKey : String
  outputKey : String

namespace MapOver

def new (listKey : String) (body : Flow) : MapOver :=
  ⟨listKey, body, defaultItemKey, defaultResultsKey⟩

def toFlow (map : MapOver) : Flow :=
  .ofKind (.mapOver map.body map.listKey map.itemKey map.outputKey)

end MapOver

/-- A choice between steps by the value of a key, under construction. -/
structure Route where
  key : String
  rules : List (Rule Flow)
  otherwise : Option Flow

namespace Route

def on (key : String) : Route :=
  ⟨key, [], none⟩

def when (route : Route) (predicate : Predicate) (target : Flow) : Route :=
  { route with rules := route.rules ++ [⟨predicate, target⟩] }

def equals (route : Route) (value : Json) (target : Flow) : Route :=
  route.when (.equals route.key value) target

def contains (route : Route) (needle : String) (target : Flow) : Route :=
  route.when (.contains route.key needle) target

def toFlow (route : Route) : Flow :=
  .ofKind (.route route.key route.rules route.otherwise)

end Route

/-- The arms of a choice by a key that the step before it will supply. -/
structure Routes where
  arms : List (Json × Flow)
  otherwise : Option Flow

namespace Routes

def empty : Routes :=
  ⟨[], none⟩

def when (routes : Routes) (value : Json) (target : Flow) : Routes :=
  { routes with arms := routes.arms ++ [(value, target)] }

def toRoute (routes : Routes) (key : String) : Route where
  key := key
  rules := routes.arms.map fun (value, target) => ⟨.equals key value, target⟩
  otherwise := routes.otherwise

end Routes

/-- A condition to stop at, and a bound on the number of rounds. -/
structure LoopLimit where
  exit : Predicate
  bound : UInt32

namespace Flow

/-- A choice by the result of a step, which must say where it stores it. -/
def branch (source : Flow) (routes : Routes) : Except Error Flow :=
  match source.outputKey? with
  | some key => .ok (source.andThen (routes.toRoute key).toFlow)
  | none => .error (.missingOutputKey source.label)

/-- A pause for approval. The key that records it comes from the message. -/
def gate (predicate : Predicate) (message : String) : Flow :=
  gateWithKey predicate message ("_gate_" ++ slug message ++ "_approved")

end Flow

end Workflow
