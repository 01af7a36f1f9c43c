import Workflow.Predicate.Basic
import Workflow.Number.Single
import Workflow.Schema.Basic
import Workflow.StateOp.Basic

/-! What a step of a workflow does, with steps below it of any type. -/
namespace Workflow

/-- Settings that are handed to the model as they are. -/
structure Generation where
  temperature : Option Number.Single
  topP : Option Number.Single
  maxOutputTokens : Option UInt32
deriving DecidableEq

namespace Generation

def empty : Generation := ⟨none, none, none⟩

def sameSingle : Option Number.Single → Option Number.Single → Bool
  | none, none => true
  | some x, some y => x.sameValue y
  | _, _ => false

def equal (a b : Generation) : Bool :=
  sameSingle a.temperature b.temperature && sameSingle a.topP b.topP &&
    a.maxOutputTokens == b.maxOutputTokens

instance : BEq Generation := ⟨equal⟩

end Generation

/-- One step that calls a model. -/
structure AgentSpec where
  model : Option String
  instruction : Option String
  description : Option String
  tools : List String
  /-- The key that receives the reply. -/
  outputKey : Option String
  outputSchema : Option Schema
  generation : Option Generation
  /-- Whether earlier turns are sent to the model. -/
  includeHistory : Bool

namespace AgentSpec

def empty : AgentSpec := ⟨none, none, none, [], none, none, none, true⟩

instance : Inhabited AgentSpec := ⟨empty⟩

def equal (a b : AgentSpec) : Bool :=
  a.model == b.model && a.instruction == b.instruction && a.description == b.description &&
    a.tools == b.tools && a.outputKey == b.outputKey && a.outputSchema == b.outputSchema &&
    a.generation == b.generation && a.includeHistory == b.includeHistory

instance : BEq AgentSpec := ⟨equal⟩

end AgentSpec

/-- What a tap does with the state it observes. -/
inductive TapAction where
  | log (keys : List String)
  /-- Leaves the loop around it when the predicate holds. -/
  | checkpoint (exit : Predicate)

namespace TapAction

def equal : TapAction → TapAction → Bool
  | .log ks, .log ls => ks == ls
  | .checkpoint p, .checkpoint q => p == q
  | _, _ => false

instance : BEq TapAction := ⟨equal⟩

end TapAction

/-- One arm of a route. -/
structure Rule (α : Type) where
  predicate : Predicate
  target : α

inductive Kind (α : Type) where
  | leaf (spec : AgentSpec)
  | sequence (children : List α)
  | parallel (children : List α)
  | loop (body : α) (maxIterations : UInt32) (exit : Option Predicate)
  | transform (ops : List StateOp)
  | tap (action : TapAction)
  | fallback (children : List α)
  | race (children : List α)
  | gate (predicate : Predicate) (message approvalKey : String)
  | mapOver (body : α) (listKey itemKey outputKey : String)
  | timeout (body : α) (deadlineMs : UInt64)
  | route (key : String) (rules : List (Rule α)) (otherwise : Option α)
  | transfer (target : String) (condition : Option Predicate)
  | capture (key : String)

namespace Kind

variable {α β : Type}

def map (f : α → β) : Kind α → Kind β
  | .leaf spec => .leaf spec
  | .sequence children => .sequence (children.map f)
  | .parallel children => .parallel (children.map f)
  | .loop body bound exit => .loop (f body) bound exit
  | .transform ops => .transform ops
  | .tap action => .tap action
  | .fallback children => .fallback (children.map f)
  | .race children => .race (children.map f)
  | .gate predicate message approvalKey => .gate predicate message approvalKey
  | .mapOver body listKey itemKey outputKey => .mapOver (f body) listKey itemKey outputKey
  | .timeout body deadline => .timeout (f body) deadline
  | .route key rules otherwise =>
    .route key (rules.map fun rule => ⟨rule.predicate, f rule.target⟩) (otherwise.map f)
  | .transfer target condition => .transfer target condition
  | .capture key => .capture key

/-- The steps directly below, in order. A route has its arms in order, then the default. -/
def children : Kind α → List α
  | .sequence children | .parallel children | .fallback children | .race children => children
  | .loop body .. | .mapOver body .. | .timeout body _ => [body]
  | .route _ rules otherwise => rules.map (·.target) ++ otherwise.toList
  | .leaf _ | .transform _ | .tap _ | .gate .. | .transfer .. | .capture _ => []

def tag : Kind α → String
  | .leaf _ => "leaf"
  | .sequence _ => "sequence"
  | .parallel _ => "parallel"
  | .loop .. => "loop"
  | .transform _ => "transform"
  | .tap _ => "tap"
  | .fallback _ => "fallback"
  | .race _ => "race"
  | .gate .. => "gate"
  | .mapOver .. => "map_over"
  | .timeout .. => "timeout"
  | .route .. => "route"
  | .transfer .. => "transfer"
  | .capture _ => "capture"

/-- The tags of all kinds, in the order of their definition. -/
def tags : List String :=
  ["leaf", "sequence", "parallel", "loop", "transform", "tap", "fallback", "race", "gate", "map_over",
    "timeout", "route", "transfer", "capture"]

def isComposite : Kind α → Bool
  | .sequence _ | .parallel _ | .loop .. | .fallback _ | .race _ | .mapOver .. | .timeout .. |
    .route .. => true
  | .leaf _ | .transform _ | .tap _ | .gate .. | .transfer .. | .capture _ => false

/-- State plumbing, which never calls out. -/
def isZeroCost : Kind α → Bool
  | .transform _ | .tap _ | .capture _ => true
  | _ => false

/-- The keys that a step reads because of what it is, whatever it declares. -/
def reads : Kind α → KeySet
  | .transform ops => .unions (ops.map (·.reads))
  | .tap (.log keys) => .ofList keys
  | .tap (.checkpoint exit) => exit.keys
  | .gate predicate _ _ => predicate.keys
  | .mapOver _ listKey _ _ => .singleton listKey
  | .route key _ _ => .singleton key
  | .transfer _ (some condition) => condition.keys
  | _ => ∅

/-- The keys that a step writes because of what it is, whatever it declares. -/
def writes : Kind α → KeySet
  | .leaf spec => .ofList spec.outputKey.toList
  | .transform ops => .unions (ops.map (·.writes))
  | .mapOver _ _ _ outputKey => .singleton outputKey
  | .capture key => .singleton key
  | _ => ∅

/-- Compares two kinds, given how to compare a part of the first with one of the second. -/
def equalWith (same : α → β → Bool) : Kind α → Kind β → Bool
  | .leaf s, .leaf t => s == t
  | .sequence xs, .sequence ys => equalLists xs ys
  | .parallel xs, .parallel ys => equalLists xs ys
  | .loop x m e, .loop y n f => same x y && m == n && e == f
  | .transform os, .transform ps => os == ps
  | .tap a, .tap b => a == b
  | .fallback xs, .fallback ys => equalLists xs ys
  | .race xs, .race ys => equalLists xs ys
  | .gate p m k, .gate q n l => p == q && m == n && k == l
  | .mapOver x l i o, .mapOver y m j p => same x y && l == m && i == j && o == p
  | .timeout x d, .timeout y e => same x y && d == e
  | .route k rs d, .route l ss e => k == l && equalRules rs ss && equalOptions d e
  | .transfer t c, .transfer u d => t == u && c == d
  | .capture k, .capture l => k == l
  | _, _ => false
where
  equalLists : List α → List β → Bool
    | [], [] => true
    | x :: xs, y :: ys => same x y && equalLists xs ys
    | _, _ => false
  equalRules : List (Rule α) → List (Rule β) → Bool
    | [], [] => true
    | x :: xs, y :: ys => x.predicate == y.predicate && same x.target y.target && equalRules xs ys
    | _, _ => false
  equalOptions : Option α → Option β → Bool
    | none, none => true
    | some x, some y => same x y
    | _, _ => false

@[simp] theorem children_map (f : α → β) (kind : Kind α) :
    (kind.map f).children = kind.children.map f := by
  cases kind with
  | route key rules otherwise => cases otherwise <;> simp [map, children]
  | _ => simp [map, children]

@[simp] theorem reads_map (f : α → β) (kind : Kind α) : (kind.map f).reads = kind.reads := by
  cases kind with
  | tap action => cases action <;> rfl
  | transfer target condition => cases condition <;> rfl
  | _ => rfl

@[simp] theorem writes_map (f : α → β) (kind : Kind α) : (kind.map f).writes = kind.writes := by
  cases kind <;> rfl

theorem children_eq_nil (kind : Kind α) (h : kind.isComposite = false) : kind.children = [] := by
  cases kind <;> simp_all [isComposite, children]

end Kind

end Workflow
