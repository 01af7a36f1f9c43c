import Workflow.Contract.Demand

/-!
The keys that are available at each step, going through the tree in order. A key that a step asks for
and that is not available is an error; writing a key again is worth a note.
-/
namespace Workflow.Availability

/-- The keys that are available after a step, and what was found on the way. -/
structure Outcome where
  available : KeySet
  diagnostics : List Diagnostic

/-- What a step makes of the keys that are available before it. -/
abbrev Pass := KeySet → Outcome

def missingKey (node key : String) : Diagnostic :=
  ⟨.error, node, "consumes key '" ++ key ++ "' but no prior step produces it"⟩

def missingRoutingKey (node key : String) : Diagnostic :=
  ⟨.error, node, "routes on key '" ++ key ++ "' but no prior step produces it"⟩

def overwrittenKey (node key : String) : Diagnostic :=
  ⟨.info, node, "re-writes key '" ++ key ++ "' already produced upstream"⟩

def isMissing (available : KeySet) (key : String) : Bool :=
  !available.contains key && !isExternalKey key

/-- Of the keys of a set, those that are missing. -/
def missing (available keys : KeySet) : List String :=
  keys.toList.filter (isMissing available)

/-- Of the keys of a set, those of the workflow that are available already. -/
def overwritten (available keys : KeySet) : List String :=
  keys.toList.filter fun key => available.contains key && !isExternalKey key

/-- The missing keys of a step, each once. A route reports its own key first and in its own words. -/
def demandErrors (node : Node) (available : KeySet) : List Diagnostic :=
  match node.kind with
  | .route key _ _ =>
    (if isMissing available key then [missingRoutingKey node.name key] else []) ++
      (missing available (node.demand.erase key)).map (missingKey node.name)
  | _ => (missing available node.demand).map (missingKey node.name)

/-- The writes of a step that is no group of steps. -/
def recordWrites (node : Node) : Pass := fun available =>
  ⟨available ∪ node.writes, (overwritten available node.writes).map (overwrittenKey node.name)⟩

/-- The steps one after another. -/
def inOrder : List Pass → Pass
  | [], available => ⟨available, []⟩
  | first :: rest, available =>
    let before := first available
    let after := inOrder rest before.available
    ⟨after.available, before.diagnostics ++ after.diagnostics⟩

/-- The steps side by side, each from the same keys; all their keys are available afterwards. -/
def sideBySide (passes : List Pass) : Pass := fun available =>
  let outcomes := passes.map fun pass => pass available
  ⟨available ∪ .unions (outcomes.map (·.available)), outcomes.flatMap (·.diagnostics)⟩

/-- The keys that are in every set of a list, and none if there is no set. -/
def common : List KeySet → KeySet
  | [] => ∅
  | first :: rest => rest.foldl (· ∩ ·) first

/-- One of the steps, each from the same keys; only what all of them leave is available afterwards. -/
def oneOf (passes : List Pass) : Pass := fun available =>
  let outcomes := passes.map fun pass => pass available
  ⟨available ∪ common (outcomes.map (·.available)), outcomes.flatMap (·.diagnostics)⟩

/-- The body sees the item; what it writes stays with the item. -/
def perItem (itemKey : String) (body : Pass) : Pass := fun available =>
  ⟨available, (body (available.insert itemKey)).diagnostics⟩

/-- What happens below a step, before its own writes are there. -/
def inside : Kind Pass → Pass
  | .sequence passes => inOrder passes
  | .loop pass .. | .timeout pass _ => pass
  | .mapOver pass _ itemKey _ => perItem itemKey pass
  | .parallel passes => sideBySide passes
  | .fallback passes | .race passes => oneOf passes
  | .route key rules otherwise => oneOf (Kind.route key rules otherwise).children
  | .leaf _ | .transform _ | .tap _ | .gate .. | .transfer .. | .capture _ => inOrder []

/-- Groups of steps write without a note, since their writes are those of the steps inside. -/
def ownWrites (node : Node) : Pass :=
  match node.kind with
  | .sequence _ | .loop .. | .timeout .. | .parallel _ | .fallback _ | .race _ | .route .. =>
    fun available => ⟨available ∪ node.writes, []⟩
  | _ => recordWrites node

/-- A step asks for its keys, then the steps below it run, then its own writes are there. -/
def step (node : Node) (below : Kind Pass) : Pass :=
  inOrder [fun available => ⟨available, demandErrors node available⟩, inside below, ownWrites node]

def pass (node : Node) : Pass :=
  node.fold step

end Workflow.Availability
