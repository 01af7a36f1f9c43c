import Workflow.Contract.Demand

/-!
The steps whose writes may still be used, going through the tree in order. A step with something after
it whose writes no later step uses has a dead output.
-/
namespace Workflow.Liveness

/-- A step that writes. It is terminal if nothing comes after it. -/
structure Writer where
  node : String
  keys : KeySet
  terminal : Bool
  consumed : Bool
deriving DecidableEq

/-- All writers so far in order, and for each key the positions of those whose value may still be there. -/
structure Ledger where
  writers : List Writer
  live : KeyMap (List Nat)

/-- What a step does to the ledger, given whether anything comes after it. -/
abbrev Pass := Bool → Ledger → Ledger

def Ledger.empty : Ledger := ⟨[], ∅⟩

/-- Marks the writers at the given positions. -/
def mark (positions : List Nat) (writers : List Writer) : List Writer :=
  writers.mapIdx fun position writer =>
    if positions.contains position then { writer with consumed := true } else writer

/-- Using a key uses the value of every writer that may have left it. -/
def consume (ledger : Ledger) (key : String) : Ledger :=
  { ledger with writers := mark (ledger.live.getD key []) ledger.writers }

def consumeAll (keys : KeySet) (ledger : Ledger) : Ledger :=
  keys.toList.foldl consume ledger

/-- A new writer takes the place of all others for its keys. -/
def record (node : Node) (terminal : Bool) (ledger : Ledger) : Ledger :=
  if node.writes.isEmpty then ledger
  else
    { writers := ledger.writers ++ [⟨node.name, node.writes, terminal, false⟩]
      live := node.writes.toList.foldl
        (fun live key => live.insert key [ledger.writers.length]) ledger.live }

/-- Adds the positions that are not there yet. -/
def addPositions (positions more : List Nat) : List Nat :=
  more.foldl (fun all position => if all.contains position then all else all ++ [position]) positions

/-- The writers that are live on one branch or another. -/
def unite (left right : KeyMap (List Nat)) : KeyMap (List Nat) :=
  right.toList.foldl
    (fun all entry => all.insert entry.1 (addPositions (all.getD entry.1 []) entry.2)) left

/-- The steps one after another: something comes after all but the last. -/
def inOrder : List Pass → Pass
  | [], _, ledger => ledger
  | [last], after, ledger => last after ledger
  | first :: rest, after, ledger => inOrder rest after (first true ledger)

/-- The steps as branches, each from the same live writers. -/
def branches (passes : List Pass) (after : Bool) (ledger : Ledger) : Ledger :=
  if passes.isEmpty then ledger
  else
    passes.foldl (fun (merged : Ledger) pass =>
      let result := pass after { writers := merged.writers, live := ledger.live }
      { writers := result.writers, live := unite merged.live result.live })
      { writers := ledger.writers, live := ∅ }

/-- What the body leaves feeds the collected results, and is not seen outside. -/
def perItem (body : Pass) (ledger : Ledger) : Ledger :=
  let result := body true ledger
  let fed := result.live.values.flatten.filter fun position => ledger.writers.length ≤ position
  { writers := mark fed result.writers, live := ledger.live }

/-- What happens below a step. Something comes after each branch of a parallel step and after the body of
a loop, whatever comes after the step itself. -/
def inside : Kind Pass → Pass
  | .sequence passes => inOrder passes
  | .loop pass .. => fun _ => pass true
  | .timeout pass _ => pass
  | .mapOver pass .. => fun _ => perItem pass
  | .parallel passes => fun _ => branches passes true
  | .fallback passes | .race passes => branches passes
  | .route key rules otherwise => branches (Kind.route key rules otherwise).children
  | .leaf _ | .transform _ | .tap _ | .gate .. | .transfer .. | .capture _ => fun _ ledger => ledger

/-- Groups of steps are no writers, since their writes are those of the steps inside. -/
def isWriter {α : Type} : Kind α → Bool
  | .sequence _ | .loop .. | .timeout .. | .parallel _ | .fallback _ | .race _ | .route .. => false
  | _ => true

def step (node : Node) (below : Kind Pass) : Pass := fun after ledger =>
  let ledger := inside below after (consumeAll node.demand ledger)
  if isWriter node.kind then record node (!after) ledger else ledger

def pass (node : Node) : Pass :=
  node.fold step

def deadOutput (writer : Writer) : Diagnostic :=
  let keys := writer.keys.toList.map fun key => "'" ++ key ++ "'"
  ⟨.info, writer.node, "writes " ++ ", ".intercalate keys ++
    " but no later step consumes it (likely dead output)"⟩

/-- The writers that something comes after and that nothing uses. -/
def deadOutputs (node : Node) : List Diagnostic :=
  (pass node false .empty).writers.filter (fun writer => !writer.terminal && !writer.consumed)
    |>.map deadOutput

end Workflow.Liveness
