import Workflow.Contract.Check
import Workflow.Proofs.Contract.Availability
import Workflow.Proofs.Contract.Position
import Workflow.Proofs.Contract.Tracking
import Workflow.Proofs.Tree.Replacement

/-!
The check in one visit of the tree. A visitor takes the available keys and the writers along together and
reports what is missing where it comes past. It finds what the two passes find one after the other, so
that the keys have no say in which writers are used, nor the writers in which keys are missing.
-/
namespace Workflow

open Availability (isMissing missing overwritten missingKey missingRoutingKey overwrittenKey)

/-- What a visitor has found so far, and what it remembers. -/
structure Checker where
  diagnostics : List Diagnostic
  ledger : Liveness.Ledger
  available : KeySet

/-- What the visit of a step does to a visitor, given whether anything comes after the step. -/
abbrev Visit := Bool → Checker → Checker

namespace Checker

def report (diagnostic : Diagnostic) (checker : Checker) : Checker :=
  { checker with diagnostics := checker.diagnostics ++ [diagnostic] }

/-- Uses a key, and reports it if it is missing. -/
def ask (missing : String → Diagnostic) (checker : Checker) (key : String) : Checker :=
  let used := { checker with ledger := Liveness.consume checker.ledger key }
  if isMissing checker.available key then used.report (missing key) else used

def require (node : String) (keys : KeySet) (checker : Checker) : Checker :=
  keys.toList.foldl (ask (missingKey node)) checker

/-- Reports a key that is there already. -/
def note (node : String) (checker : Checker) (key : String) : Checker :=
  if checker.available.contains key && !isExternalKey key then
    checker.report (overwrittenKey node key)
  else checker

def provide (keys : KeySet) (checker : Checker) : Checker :=
  { checker with available := checker.available ∪ keys }

/-- Puts the writes of a step on record. -/
def record (node : Node) (terminal : Bool) (checker : Checker) : Checker :=
  if node.writes.isEmpty then checker
  else
    let noted := node.writes.toList.foldl (note node.name) checker
    provide node.writes { noted with ledger := Liveness.record node terminal noted.ledger }

/-- The steps one after another: something comes after all but the last. -/
def inOrder (visits : List Visit) : Visit := fun after checker =>
  visits.zipIdx.foldl
    (fun checker (visit, i) => visit (decide (i < visits.length - 1) || after) checker) checker

/-- The body sees the item. What it leaves feeds the collected results, and is not seen outside. -/
def perItem (itemKey : String) (body : Visit) (checker : Checker) : Checker :=
  let result := body true { checker with available := checker.available.insert itemKey }
  let fed := result.ledger.live.values.flatten.filter fun i => checker.ledger.writers.length ≤ i
  { diagnostics := result.diagnostics
    ledger := ⟨Liveness.mark fed result.ledger.writers, checker.ledger.live⟩
    available := checker.available }

/-- What some branches have left: the positions that are live after one of them, and what becomes of the
keys that are available after each. -/
structure Joined (α : Type) where
  diagnostics : List Diagnostic
  ledger : Liveness.Ledger
  keys : α

/-- One more branch, from the keys and the live positions at the start. -/
def addBranch {α : Type} (join : α → KeySet → α) (start : Checker) (after : Bool)
    (joined : Joined α) (visit : Visit) : Joined α :=
  let result := visit after
    ⟨joined.diagnostics, ⟨joined.ledger.writers, start.ledger.live⟩, start.available⟩
  ⟨result.diagnostics,
    ⟨result.ledger.writers, Liveness.unite joined.ledger.live result.ledger.live⟩,
    join joined.keys result.available⟩

/-- The branches one after another. Without any branch all stays as it is. -/
def branches {α : Type} (join : α → KeySet → α) (keys : α) (visits : List Visit) (after : Bool)
    (checker : Checker) : Joined α :=
  let joined := visits.foldl (addBranch join checker after)
    ⟨checker.diagnostics, { checker.ledger with live := ∅ }, keys⟩
  if visits.isEmpty then { joined with ledger := checker.ledger } else joined

/-- The steps side by side: all their keys are available afterwards. -/
def sideBySide (visits : List Visit) (checker : Checker) : Checker :=
  let joined := branches (· ∪ ·) checker.available visits true checker
  ⟨joined.diagnostics, joined.ledger, joined.keys⟩

/-- The keys of all branches so far, if there were any. -/
def join? (common : Option KeySet) (keys : KeySet) : Option KeySet :=
  match common with
  | none => some keys
  | some common => some (common ∩ keys)

/-- One of the steps: only the keys that all of them leave are available afterwards. -/
def oneOf (visits : List Visit) : Visit := fun after checker =>
  let joined := branches join? none visits after checker
  ⟨joined.diagnostics, joined.ledger, joined.keys.elim checker.available (checker.available ∪ ·)⟩

def step (node : Node) (below : Kind Visit) : Visit := fun after checker =>
  match below with
  | .sequence visits =>
    provide node.writes (inOrder visits after (checker.require node.name node.reads))
  | .loop body .. =>
    provide node.writes (body true (checker.require node.name node.reads))
  | .timeout body _ =>
    provide node.writes (body after (checker.require node.name node.reads))
  | .mapOver body _ itemKey _ =>
    record node (!after) (perItem itemKey body (checker.require node.name node.reads))
  | .parallel visits =>
    provide node.writes (sideBySide visits (checker.require node.name node.reads))
  | .fallback visits | .race visits =>
    provide node.writes (oneOf visits after (checker.require node.name node.reads))
  | .route key rules otherwise =>
    let looked := node.reads.insertAll (rules.flatMap fun rule => rule.predicate.keys.toList)
    let routed := ask (missingRoutingKey node.name) checker key
    provide node.writes (oneOf (Kind.route key rules otherwise).children after
      (routed.require node.name (looked.erase key)))
  | .leaf spec =>
    let asked := node.reads.insertAll ((spec.instruction.map requiredKeys).getD [])
    record node (!after) (checker.require node.name asked)
  | .transform _ | .tap _ | .gate .. | .transfer .. | .capture _ =>
    record node (!after) (checker.require node.name node.reads)

def visit (node : Node) : Visit :=
  node.fold step

/-- The visitor at the root. -/
def start (seed : KeySet) : Checker :=
  ⟨[], .empty, seed⟩

/-- What there is to say after the visit. -/
def finish (checker : Checker) : List Diagnostic :=
  checker.diagnostics ++
    (checker.ledger.writers.filter fun writer => !writer.terminal && !writer.consumed).map
      Liveness.deadOutput

/-- What two passes do one beside the other. -/
def beside (keys : Availability.Pass) (writers : Liveness.Pass) : Visit := fun after checker =>
  { diagnostics := checker.diagnostics ++ (keys checker.available).diagnostics
    ledger := writers after checker.ledger
    available := (keys checker.available).available }

def both (node : Node) : Visit :=
  beside (Availability.pass node) (Liveness.pass node)

theorem foldl_ask (missing : String → Diagnostic) (keys : List String) (checker : Checker) :
    keys.foldl (ask missing) checker =
      { checker with
        diagnostics := checker.diagnostics ++
          (keys.filter (isMissing checker.available)).map missing
        ledger := keys.foldl Liveness.consume checker.ledger } := by
  induction keys generalizing checker with
  | nil => simp
  | cons key keys ih =>
    rw [List.foldl_cons, ih]
    cases absent : isMissing checker.available key <;> simp [ask, report, absent]

theorem require_eq (node : String) (keys : KeySet) (checker : Checker) :
    checker.require node keys =
      { checker with
        diagnostics := checker.diagnostics ++
          (missing checker.available keys).map (missingKey node)
        ledger := Liveness.consumeAll keys checker.ledger } :=
  foldl_ask (missingKey node) keys.toList checker

theorem foldl_note (node : String) (keys : List String) (checker : Checker) :
    keys.foldl (note node) checker =
      { checker with
        diagnostics := checker.diagnostics ++ (keys.filter fun key =>
          checker.available.contains key && !isExternalKey key).map (overwrittenKey node) } := by
  induction keys generalizing checker with
  | nil => simp
  | cons key keys ih =>
    rw [List.foldl_cons, ih]
    cases there : checker.available.contains key && !isExternalKey key <;>
      simp [note, report, there]

/-- A step without writes has nothing to report either. -/
theorem record_eq (node : Node) (terminal : Bool) (checker : Checker) :
    record node terminal checker =
      { diagnostics := checker.diagnostics ++
          (overwritten checker.available node.writes).map (overwrittenKey node.name)
        ledger := Liveness.record node terminal checker.ledger
        available := checker.available ∪ node.writes } := by
  cases silent : node.writes.isEmpty with
  | true =>
    have none : node.writes.toList = [] := List.isEmpty_iff.1 silent
    have absent (key : String) : key ∉ node.writes := by
      rw [KeySet.mem_def, none]
      exact List.not_mem_nil
    have same : checker.available ∪ node.writes = checker.available :=
      KeySet.ext_mem fun key => by simp [absent]
    simp [record, Liveness.record, silent, overwritten, none, same]
  | false => simp [record, silent, foldl_note, provide, overwritten]

section passes

variable {checker : Checker}

theorem foldl_inOrder (steps : List Node) (after : Bool) (i : Nat) (checker : Checker) :
    ((steps.map both).zipIdx i).foldl
        (fun checker (visit, j) => visit (decide (j < i + steps.length - 1) || after) checker) checker =
      beside (Availability.inOrder (steps.map Availability.pass))
        (Liveness.inOrder (steps.map Liveness.pass)) after checker := by
  induction steps generalizing i checker with
  | nil => simp [beside, Availability.inOrder, Liveness.inOrder]
  | cons step rest ih =>
    have next : i + (step :: rest).length - 1 = i + 1 + rest.length - 1 := by
      simp only [List.length_cons]
      omega
    rw [List.map_cons, List.zipIdx_cons, List.foldl_cons, next, ih]
    cases rest with
    | nil => simp [both, beside, Availability.inOrder, Liveness.inOrder]
    | cons second rest =>
      have later : i < i + 1 + rest.length := by omega
      simp [both, beside, Availability.inOrder, Liveness.inOrder, later]

theorem inOrder_both (steps : List Node) :
    inOrder (steps.map both) =
      beside (Availability.inOrder (steps.map Availability.pass))
        (Liveness.inOrder (steps.map Liveness.pass)) := by
  funext after checker
  have all := foldl_inOrder steps after 0 checker
  rw [Nat.zero_add] at all
  rw [inOrder, List.length_map, all]

theorem perItem_both (itemKey : String) (body : Node) (after : Bool) :
    perItem itemKey (both body) checker =
      beside (Availability.perItem itemKey (Availability.pass body))
        (fun _ => Liveness.perItem (Liveness.pass body)) after checker := rfl

/-- What the branches find does not depend on one another. -/
theorem foldl_addBranch {α : Type} (join : α → KeySet → α) (steps : List Node) (start : Checker)
    (after : Bool) (joined : Joined α) :
    (steps.map both).foldl (addBranch join start after) joined =
      { diagnostics := joined.diagnostics ++
          steps.flatMap fun step => (Availability.pass step start.available).diagnostics
        ledger := (steps.map Liveness.pass).foldl (Liveness.addBranch start.ledger after) joined.ledger
        keys := (steps.map fun step => (Availability.pass step start.available).available).foldl join
          joined.keys } := by
  induction steps generalizing joined with
  | nil => simp
  | cons step rest ih =>
    rw [List.map_cons, List.foldl_cons, ih]
    simp [addBranch, Liveness.addBranch, both, beside]

theorem branches_both {α : Type} (join : α → KeySet → α) (keys : α) (steps : List Node)
    (after : Bool) :
    branches join keys (steps.map both) after checker =
      { diagnostics := checker.diagnostics ++
          steps.flatMap fun step => (Availability.pass step checker.available).diagnostics
        ledger := Liveness.branches (steps.map Liveness.pass) after checker.ledger
        keys := (steps.map fun step => (Availability.pass step checker.available).available).foldl join
          keys } := by
  rw [branches, foldl_addBranch, Liveness.branches]
  cases steps with
  | nil => rfl
  | cons step rest => rfl

theorem foldl_union (sets : List KeySet) (keys : KeySet) :
    sets.foldl (· ∪ ·) keys = keys ∪ .unions sets := by
  induction sets generalizing keys with
  | nil => exact KeySet.ext_mem fun key => by simp
  | cons first rest ih =>
    rw [List.foldl_cons, ih]
    refine KeySet.ext_mem fun key => ?_
    simp [or_assoc]

theorem beside_nothing {after : Bool} (checker : Checker) :
    beside (Availability.inOrder []) (fun _ ledger => ledger) after checker = checker := by
  simp [beside, Availability.inOrder]

theorem sideBySide_both (steps : List Node) (after : Bool) :
    sideBySide (steps.map both) checker =
      beside (Availability.sideBySide (steps.map Availability.pass))
        (fun _ => Liveness.branches (steps.map Liveness.pass) true) after checker := by
  rw [sideBySide, branches_both, foldl_union]
  simp [beside, Availability.sideBySide, List.flatMap_map, Function.comp_def]

theorem foldl_join? (sets : List KeySet) (common : KeySet) :
    sets.foldl join? (some common) = some (sets.foldl (· ∩ ·) common) := by
  induction sets generalizing common with
  | nil => rfl
  | cons first rest ih => exact ih (common ∩ first)

theorem elim_join? (sets : List KeySet) (keys : KeySet) :
    (sets.foldl join? none).elim keys (keys ∪ ·) = keys ∪ Availability.common sets := by
  cases sets with
  | nil => exact KeySet.ext_mem fun key => by simp [Availability.common]
  | cons first rest => rw [List.foldl_cons, join?, foldl_join?, Option.elim_some, Availability.common]

theorem oneOf_both (steps : List Node) :
    oneOf (steps.map both) =
      beside (Availability.oneOf (steps.map Availability.pass))
        (Liveness.branches (steps.map Liveness.pass)) := by
  funext after checker
  rw [oneOf, branches_both, elim_join?]
  simp [beside, Availability.oneOf, List.flatMap_map, Function.comp_def]

end passes

/-- A step has asked for its keys. -/
def asked (node : Node) (checker : Checker) : Checker :=
  { checker with
    diagnostics := checker.diagnostics ++ Availability.demandErrors node checker.available
    ledger := Liveness.consumeAll node.demand checker.ledger }

/-- The kinds that are asked for nothing but their reads. -/
def asksForReads {α : Type} : Kind α → Bool
  | .leaf _ | .route .. => false
  | _ => true

section step

variable {node : Node} {after : Bool} {checker : Checker}

theorem require_demand (plain : ∀ key rules otherwise, node.kind ≠ .route key rules otherwise) :
    checker.require node.name node.demand = asked node checker := by
  have errors : Availability.demandErrors node checker.available =
      (missing checker.available node.demand).map (missingKey node.name) := by
    unfold Availability.demandErrors
    split
    · next route => exact absurd route (plain _ _ _)
    · rfl
  rw [require_eq, asked, errors]

theorem require_reads (plain : asksForReads node.kind = true) :
    checker.require node.name node.reads = asked node checker := by
  have demand : node.demand = node.reads := by
    unfold Node.demand Node.impliedDemand
    cases kind : node.kind <;> first | rfl | simp [kind, asksForReads] at plain
  rw [← demand]
  refine require_demand fun key rules otherwise route => ?_
  simp [route, asksForReads] at plain

theorem require_route {key : String} {rules : List (Rule Node)} {otherwise : Option Node}
    (route : node.kind = .route key rules otherwise) :
    require node.name (node.demand.erase key) (ask (missingRoutingKey node.name) checker key) =
      asked node checker := by
  have reads : key ∈ node.demand := by
    simp [Node.demand, Tree.reads, route, Kind.reads]
  have first := foldl_ask (missingRoutingKey node.name) [key] checker
  rw [List.foldl_cons, List.foldl_nil] at first
  rw [first, require_eq, List.foldl_cons, List.foldl_nil, Liveness.consumeAll_erase reads, asked]
  cases absent : isMissing checker.available key <;>
    simp [Availability.demandErrors, route, absent]

variable (keys : Kind Availability.Pass) (writers : Kind Liveness.Pass)

theorem provide_beside (group : Liveness.isWriter node.kind = false) :
    provide node.writes
        (beside (Availability.inside keys) (Liveness.inside writers) after (asked node checker)) =
      beside (Availability.step node keys) (Liveness.step node writers) after checker := by
  have own : Availability.ownWrites node = fun available => ⟨available ∪ node.writes, []⟩ := by
    unfold Availability.ownWrites
    cases kind : node.kind <;> simp_all [Liveness.isWriter]
  simp [provide, beside, asked, Availability.step, Availability.inOrder, own, Liveness.step, group]

theorem record_beside (writer : Liveness.isWriter node.kind = true) :
    record node (!after)
        (beside (Availability.inside keys) (Liveness.inside writers) after (asked node checker)) =
      beside (Availability.step node keys) (Liveness.step node writers) after checker := by
  have own : Availability.ownWrites node = Availability.recordWrites node := by
    unfold Availability.ownWrites
    cases kind : node.kind <;> simp_all [Liveness.isWriter]
  rw [record_eq]
  simp [beside, asked, Availability.step, Availability.inOrder, own, Availability.recordWrites,
    Liveness.step, writer]

end step

theorem step_both (node : Node) :
    step node (node.kind.map both) =
      beside (Availability.step node (node.kind.map Availability.pass))
        (Liveness.step node (node.kind.map Liveness.pass)) := by
  funext after checker
  have asks (plain : asksForReads node.kind = true) :
      checker.require node.name node.reads = asked node checker := require_reads plain
  cases kind : node.kind with
  | sequence steps =>
    simp only [step, Kind.map, asks (by rw [kind]; rfl), inOrder_both]
    rw [← provide_beside _ _ (by rw [kind]; rfl)]
    rfl
  | loop | timeout =>
    simp only [step, Kind.map, asks (by rw [kind]; rfl)]
    rw [← provide_beside _ _ (by rw [kind]; rfl)]
    rfl
  | mapOver body listKey itemKey outputKey =>
    simp only [step, Kind.map, asks (by rw [kind]; rfl), perItem_both itemKey body after]
    rw [← record_beside _ _ (by rw [kind]; rfl)]
    rfl
  | parallel steps =>
    simp only [step, Kind.map, asks (by rw [kind]; rfl), sideBySide_both _ after]
    rw [← provide_beside _ _ (by rw [kind]; rfl)]
    rfl
  | fallback steps | race steps =>
    simp only [step, Kind.map, asks (by rw [kind]; rfl), oneOf_both]
    rw [← provide_beside _ _ (by rw [kind]; rfl)]
    rfl
  | route key rules otherwise =>
    have arms : (Kind.route key (rules.map fun rule => ⟨rule.predicate, both rule.target⟩)
        (otherwise.map both)).children = (Kind.route key rules otherwise).children.map both :=
      Kind.children_map both (.route key rules otherwise)
    have demand : node.reads.insertAll ((rules.map fun rule =>
        Rule.mk rule.predicate (both rule.target)).flatMap fun rule => rule.predicate.keys.toList) =
        node.demand := by
      rw [List.flatMap_map, Node.demand, Node.impliedDemand, kind]
    simp only [step, Kind.map, demand]
    rw [require_route kind, arms, oneOf_both, ← Kind.children_map, ← Kind.children_map,
      ← provide_beside _ _ (by rw [kind]; rfl)]
    rfl
  | leaf spec =>
    have demand : node.reads.insertAll ((spec.instruction.map requiredKeys).getD []) = node.demand := by
      rw [Node.demand, Node.impliedDemand, kind]
    simp only [step, Kind.map, demand]
    rw [require_demand (by simp [kind]), ← record_beside _ _ (by rw [kind]; rfl)]
    exact congrArg (record node (!after)) (beside_nothing _).symm
  | transform | tap | gate | transfer | capture =>
    simp only [step, Kind.map, asks (by rw [kind]; rfl)]
    rw [← record_beside _ _ (by rw [kind]; rfl)]
    exact congrArg (record node (!after)) (beside_nothing _).symm

/-- The visit does what the two passes do, so that neither of them looks at what the other one
remembers. -/
theorem visit_eq (node : Node) : visit node = both node := by
  induction node using Tree.induction with
  | step node ih =>
    have below : node.kind.map visit = node.kind.map both := Kind.map_congr ih
    have one : visit node = step node (node.kind.map visit) := Tree.fold_eq step node
    rw [one, below, step_both, both, Availability.pass_eq, Liveness.pass_eq]

/-- The check is one visit of the tree. -/
theorem finish_visit (root : Node) (seed : KeySet) :
    (visit root false (start seed)).finish = checkWith root seed := by
  rw [visit_eq]
  rfl

/-- What is available at the start has no say in who writes and whose writes are used. -/
theorem ledger_visit (root : Node) (after : Bool) (checker : Checker) (diagnostics : List Diagnostic)
    (available : KeySet) :
    (visit root after ⟨diagnostics, checker.ledger, available⟩).ledger =
      (visit root after checker).ledger := by
  rw [visit_eq]
  rfl

end Checker

end Workflow
