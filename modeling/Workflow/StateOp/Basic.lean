import Workflow.State

/-! Pure operations on the workflow state. -/
namespace Workflow

inductive StateOp where
  | set (key : String) (value : Json)
  /-- Sets the key only if it is absent. -/
  | default (key : String) (value : Json)
  | copy (source target : String)
  /-- Moves the value and removes the source. -/
  | rename (source target : String)
  | drop (key : String)
  /-- Joins the texts of those keys that are present. -/
  | merge (keys : List String) (target separator : String)

namespace StateOp

/-- The keys that the operation needs. -/
def reads : StateOp → KeySet
  | .set .. | .default .. | .drop .. => ∅
  | .copy source _ | .rename source _ => .singleton source
  | .merge keys .. => .ofList keys

/-- The keys that the operation may change. -/
def writes : StateOp → KeySet
  | .set key _ | .default key _ | .drop key => .singleton key
  | .copy _ target => .singleton target
  | .rename source target => .ofList [source, target]
  | .merge _ target _ => .singleton target

/-- The writes that an operation makes in a given state, in order. -/
def effects (view : State) : StateOp → List (String × Json)
  | .set key value => [(key, value)]
  | .default key value => if view.contains key then [] else [(key, value)]
  | .copy source target =>
    match view.get? source with
    | some value => [(target, value)]
    | none => []
  | .rename source target =>
    match view.get? source with
    | some value => [(target, value), (source, .null)]
    | none => []
  | .drop key => if view.contains key then [(key, .null)] else []
  | .merge keys target separator =>
    [(target, .string (separator.intercalate ((keys.filterMap view.get?).map Json.display)))]

def equal : StateOp → StateOp → Bool
  | .set k v, .set l w => k == l && v == w
  | .default k v, .default l w => k == l && v == w
  | .copy s t, .copy u w => s == u && t == w
  | .rename s t, .rename u w => s == u && t == w
  | .drop k, .drop l => k == l
  | .merge ks t s, .merge ls u r => ks == ls && t == u && s == r
  | _, _ => false

instance : BEq StateOp := ⟨equal⟩

end StateOp

/-- The state that later operations see, and the writes so far, in which null marks a removal. -/
structure Working where
  view : State
  delta : State

namespace Working

def write (working : Working) (effect : String × Json) : Working :=
  ⟨working.view.write effect.1 effect.2, working.delta.insert effect.1 effect.2⟩

def apply (working : Working) (op : StateOp) : Working :=
  (op.effects working.view).foldl write working

/-- Runs operations in order on a snapshot. -/
def run (ops : List StateOp) (state : State) : Working :=
  ops.foldl apply ⟨state, ∅⟩

end Working

/-- The change that operations make to a snapshot, of which each sees what those before it did. -/
def applyOps (ops : List StateOp) (state : State) : State :=
  (Working.run ops state).delta

end Workflow
