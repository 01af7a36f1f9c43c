import Workflow.Contract.Check
import Workflow.Proofs.Contract.Position
import Workflow.Proofs.Contract.Tracking

/-!
Lookups of writers by their positions. A pass that fails wherever a position has no writer never fails, and
no writer is ever taken for unused again.
-/
namespace Workflow.Liveness

/-- A moment of a pass at which writers are looked up. -/
structure Lookup where
  ledger : Ledger
  positions : List Nat

/-- Every position that is looked up has a writer. -/
def Lookup.InBounds (lookup : Lookup) : Prop :=
  ∀ i ∈ lookup.positions, i < lookup.ledger.writers.length

/-- A ledger on its way through a tree, with all lookups so far. -/
structure Watch where
  ledger : Ledger
  lookups : List Lookup

def Watch.lookUp (watch : Watch) (positions : List Nat) : Option Watch :=
  (mark? positions watch.ledger.writers).map fun writers =>
    ⟨{ watch.ledger with writers := writers }, watch.lookups ++ [⟨watch.ledger, positions⟩]⟩

def Watch.withLive (watch : Watch) (live : KeyMap (List Nat)) : Watch :=
  { watch with ledger := { watch.ledger with live := live } }

def Watch.consume (watch : Watch) (key : String) : Option Watch :=
  watch.lookUp (watch.ledger.live.getD key [])

def Watch.record (node : Node) (terminal : Bool) (watch : Watch) : Watch :=
  { watch with ledger := Liveness.record node terminal watch.ledger }

/-- A pass that notes its lookups, and fails if one of them finds no writer. -/
abbrev GuardedPass := Bool → Watch → Option Watch

namespace GuardedPass

def inOrder : List GuardedPass → GuardedPass
  | [], _, watch => some watch
  | [last], after, watch => last after watch
  | first :: rest, after, watch => (first true watch).bind (inOrder rest after)

/-- One more branch, from the live positions at the start. -/
def addBranch (start : Ledger) (after : Bool) (merged : Watch) (branch : GuardedPass) :
    Option Watch :=
  (branch after (merged.withLive start.live)).map fun result =>
    result.withLive (unite merged.ledger.live result.ledger.live)

def branches (passes : List GuardedPass) (after : Bool) (watch : Watch) : Option Watch :=
  if passes.isEmpty then some watch
  else passes.foldlM (addBranch watch.ledger after) (watch.withLive ∅)

def perItem (body : GuardedPass) (watch : Watch) : Option Watch :=
  (body true watch).bind fun result =>
    let fed := result.ledger.live.values.flatten.filter fun i => watch.ledger.writers.length ≤ i
    (result.lookUp fed).map fun marked => marked.withLive watch.ledger.live

def inside : Kind GuardedPass → GuardedPass
  | .sequence passes => inOrder passes
  | .loop pass .. => fun _ => pass true
  | .timeout pass _ => pass
  | .mapOver pass .. => fun _ => perItem pass
  | .parallel passes => fun _ => branches passes true
  | .fallback passes | .race passes => branches passes
  | .route key rules otherwise => branches (Kind.route key rules otherwise).children
  | .leaf _ | .transform _ | .tap _ | .gate .. | .transfer .. | .capture _ => fun _ => some

def step (node : Node) (below : Kind GuardedPass) : GuardedPass := fun after watch =>
  (node.demand.toList.foldlM Watch.consume watch).bind fun asked =>
    (inside below after asked).map fun watch =>
      if isWriter node.kind then watch.record node (!after) else watch

end GuardedPass

def guardedPass (node : Node) : GuardedPass :=
  node.fold GuardedPass.step

/-- The check of a tree with all its lookups, which fails if one of them finds no writer. -/
def guardedCheck (root : Node) (seed : KeySet) : Option (List Diagnostic × List Lookup) :=
  (guardedPass root false ⟨.empty, []⟩).map fun watch =>
    ((Availability.pass root seed).diagnostics ++
      (watch.ledger.writers.filter fun writer => !writer.terminal && !writer.consumed).map deadOutput,
      watch.lookups)

/-- The ledger is sound, and so was every one that writers were looked up in. The lookups found a writer at
every position, and what was used at one of them has stayed so. -/
structure Watch.Good (watch : Watch) : Prop where
  sound : watch.ledger.Sound
  looked : ∀ lookup ∈ watch.lookups, lookup.ledger.Sound ∧ lookup.InBounds
  ordered : watch.lookups.Pairwise fun earlier later =>
    Grows earlier.ledger.writers later.ledger.writers
  sofar : ∀ lookup ∈ watch.lookups, Grows lookup.ledger.writers watch.ledger.writers

/-- The run does not fail, and ends well with the given ledger. -/
def Arrives (watch : Watch) (result : Option Watch) (ledger : Ledger) : Prop :=
  ∃ lookups, result = some ⟨ledger, lookups⟩ ∧ (Watch.mk ledger lookups).Good ∧
    Grows watch.ledger.writers ledger.writers

/-- The guarded pass does not fail, and does what the pass does. -/
def Keeps (guarded : GuardedPass) (pass : Pass) : Prop :=
  ∀ after (watch : Watch), watch.Good → Arrives watch (guarded after watch) (pass after watch.ledger)

section

variable {watch : Watch} {result : Option Watch} {ledger ledger' : Ledger}

theorem Watch.Good.moved (h : watch.Good) (sound : ledger.Sound)
    (grows : Grows watch.ledger.writers ledger.writers) :
    (Watch.mk ledger watch.lookups).Good where
  sound := sound
  looked := h.looked
  ordered := h.ordered
  sofar := fun lookup mem => (h.sofar lookup mem).trans grows

theorem Arrives.grows (h : Arrives watch result ledger) :
    Grows watch.ledger.writers ledger.writers := by
  obtain ⟨-, -, -, grows⟩ := h
  exact grows

theorem Arrives.sound (h : Arrives watch result ledger) : ledger.Sound := by
  obtain ⟨lookups, -, good, -⟩ := h
  exact good.sound

theorem Arrives.refl (h : watch.Good) : Arrives watch (some watch) watch.ledger :=
  ⟨watch.lookups, rfl, h, Grows.refl _⟩

theorem Arrives.bind {next : Watch → Option Watch} (h : Arrives watch result ledger)
    (then_ : ∀ lookups, (Watch.mk ledger lookups).Good →
      Arrives ⟨ledger, lookups⟩ (next ⟨ledger, lookups⟩) ledger') :
    Arrives watch (result.bind next) ledger' := by
  obtain ⟨lookups, rfl, good, grows⟩ := h
  obtain ⟨lookups', eq, good', grows'⟩ := then_ lookups good
  exact ⟨lookups', eq, good', grows.trans grows'⟩

theorem Arrives.map {change : Watch → Watch} (h : Arrives watch result ledger)
    (changes : ∀ lookups, change ⟨ledger, lookups⟩ = ⟨ledger', lookups⟩)
    (sound : ledger'.Sound) (grows' : Grows ledger.writers ledger'.writers) :
    Arrives watch (result.map change) ledger' := by
  obtain ⟨lookups, rfl, good, grows⟩ := h
  exact ⟨lookups, congrArg some (changes lookups), good.moved sound grows', grows.trans grows'⟩

theorem arrives_lookUp (h : watch.Good) {positions : List Nat}
    (inBounds : ∀ i ∈ positions, i < watch.ledger.writers.length) :
    Arrives watch (watch.lookUp positions)
      { watch.ledger with writers := mark positions watch.ledger.writers } := by
  have grows := grows_mark positions watch.ledger.writers
  refine ⟨watch.lookups ++ [⟨watch.ledger, positions⟩], ?_, ?_, grows⟩
  · rw [Watch.lookUp, mark?_eq_some inBounds]
    rfl
  · have moved := h.moved (h.sound.grow grows) grows
    exact {
      sound := moved.sound
      looked := by
        intro lookup mem
        rcases List.mem_append.1 mem with old | new
        · exact h.looked lookup old
        · obtain rfl := List.mem_singleton.1 new
          exact ⟨h.sound, inBounds⟩
      ordered := by
        rw [List.pairwise_append]
        refine ⟨h.ordered, List.pairwise_singleton _ _, fun lookup old last new => ?_⟩
        obtain rfl := List.mem_singleton.1 new
        exact h.sofar lookup old
      sofar := by
        intro lookup mem
        rcases List.mem_append.1 mem with old | new
        · exact moved.sofar lookup old
        · obtain rfl := List.mem_singleton.1 new
          exact grows }

theorem arrives_consume (h : watch.Good) (key : String) :
    Arrives watch (watch.consume key) (consume watch.ledger key) :=
  arrives_lookUp h fun _ mem => h.sound.lt_length mem

theorem arrives_consumeAll (keys : KeySet) (h : watch.Good) :
    Arrives watch (keys.toList.foldlM Watch.consume watch) (consumeAll keys watch.ledger) := by
  unfold consumeAll
  induction keys.toList generalizing watch with
  | nil => exact .refl h
  | cons key keys ih =>
    rw [List.foldlM_cons, List.foldl_cons]
    exact (arrives_consume h key).bind fun lookups good => ih good

theorem keeps_inOrder {steps : List Node} (h : ∀ step ∈ steps, Keeps (guardedPass step) (pass step)) :
    Keeps (GuardedPass.inOrder (steps.map guardedPass)) (inOrder (steps.map pass)) := by
  induction steps with
  | nil => exact fun after watch good => .refl good
  | cons step rest ih =>
    have first := h step List.mem_cons_self
    have later := ih fun other mem => h other (.tail step mem)
    cases rest with
    | nil => exact first
    | cons next rest =>
      intro after watch good
      exact (first true watch good).bind fun lookups good' => later after _ good'

theorem arrives_addBranches {steps : List Node}
    (h : ∀ step ∈ steps, Keeps (guardedPass step) (pass step)) (after : Bool) {start : Ledger}
    (sound : start.Sound) (good : watch.Good) (grows : Grows start.writers watch.ledger.writers) :
    Arrives watch
      ((steps.map guardedPass).foldlM (GuardedPass.addBranch start after) watch)
      ((steps.map pass).foldl (addBranch start after) watch.ledger) := by
  induction steps generalizing watch with
  | nil => exact .refl good
  | cons step rest ih =>
    have branch : Arrives watch (GuardedPass.addBranch start after watch (guardedPass step))
        (addBranch start after watch.ledger (pass step)) := by
      have restarted : (watch.withLive start.live).Good :=
        good.moved (sound.grow grows) (Grows.refl _)
      obtain ⟨lookups, eq, good', grows'⟩ := h step List.mem_cons_self after _ restarted
      have merged := sound_unite (good.sound.grow grows') good'.sound
      rw [GuardedPass.addBranch, eq]
      exact ⟨lookups, rfl, good'.moved merged (Grows.refl _), grows'⟩
    have grown := branch.grows
    rw [List.map_cons, List.map_cons, List.foldlM_cons, List.foldl_cons]
    exact branch.bind fun lookups good' =>
      ih (fun other mem => h other (.tail step mem)) good' (grows.trans grown)

theorem keeps_branches {steps : List Node}
    (h : ∀ step ∈ steps, Keeps (guardedPass step) (pass step)) :
    Keeps (GuardedPass.branches (steps.map guardedPass)) (branches (steps.map pass)) := by
  intro after watch good
  by_cases empty : steps = []
  · subst empty
    exact .refl good
  · have cleared : (watch.withLive ∅).Good :=
      good.moved (sound_nothingLive watch.ledger.writers) (Grows.refl _)
    rw [GuardedPass.branches, branches, if_neg (by simpa using empty), if_neg (by simpa using empty)]
    exact arrives_addBranches h after good.sound cleared (Grows.refl _)

theorem keeps_perItem {body : GuardedPass} {bodyPass : Pass} (h : Keeps body bodyPass) :
    Keeps (fun _ => GuardedPass.perItem body) fun _ => perItem bodyPass := by
  intro after watch good
  have inside := h true watch good
  have grown := inside.grows
  refine inside.bind fun lookups good' => ?_
  have inBounds : ∀ i ∈ (bodyPass true watch.ledger).live.values.flatten.filter
      fun i => watch.ledger.writers.length ≤ i, i < (bodyPass true watch.ledger).writers.length := by
    intro i mem
    obtain ⟨key, live⟩ := mem_values.1 (List.mem_of_mem_filter mem)
    exact good'.sound.lt_length live
  have marked := arrives_lookUp good' inBounds
  exact marked.map (fun lookups => rfl) (good.sound.grow (grown.trans marked.grows)) (Grows.refl _)

theorem keeps_inside {kind : Kind Node}
    (h : ∀ child ∈ kind.children, Keeps (guardedPass child) (pass child)) :
    Keeps (GuardedPass.inside (kind.map guardedPass)) (inside (kind.map pass)) := by
  cases kind with
  | leaf | transform | tap | gate | transfer | capture => exact fun after watch good => .refl good
  | sequence steps => exact keeps_inOrder h
  | loop body => exact fun after => h body List.mem_cons_self true
  | timeout body => exact h body List.mem_cons_self
  | mapOver body => exact keeps_perItem (h body List.mem_cons_self)
  | parallel steps => exact fun after => keeps_branches h true
  | fallback steps | race steps => exact keeps_branches h
  | route key rules otherwise =>
    have arms := keeps_branches h
    rw [← Kind.children_map, ← Kind.children_map] at arms
    exact arms

theorem keeps_step {node : Node}
    (h : ∀ child ∈ node.children, Keeps (guardedPass child) (pass child)) :
    Keeps (guardedPass node) (pass node) := by
  have guarded : guardedPass node = GuardedPass.step node (node.kind.map guardedPass) :=
    Tree.fold_eq _ _
  rw [guarded, pass_eq]
  intro after watch good
  refine (arrives_consumeAll node.demand good).bind fun lookups asked => ?_
  have below := keeps_inside h after _ asked
  refine below.map (fun lookups => ?_) ?_ ?_
  · split
    · next writer => simp only [Liveness.step, if_pos writer]; rfl
    · next silent => simp only [Liveness.step, if_neg silent]
  · unfold Liveness.step
    split
    · exact below.sound.record node (!after)
    · exact below.sound
  · unfold Liveness.step
    split
    · exact grows_record node (!after) _
    · exact Grows.refl _

theorem keeps_pass (node : Node) : Keeps (guardedPass node) (pass node) :=
  Tree.induction (fun _ ih => keeps_step ih) node

end

/-- No lookup of the check is out of bounds, whatever the tree and the keys at the start: the check that
fails at a position without a writer gives what the check gives. At every lookup the live positions of a
key are those of different writers of the key, and a writer that is used at one stays so at all later
ones and at the end. -/
theorem guardedCheck_eq (root : Node) (seed : KeySet) :
    ∃ lookups, guardedCheck root seed = some (checkWith root seed, lookups) ∧
      (∀ lookup ∈ lookups, lookup.ledger.Sound ∧ lookup.InBounds) ∧
      lookups.Pairwise (fun earlier later => Grows earlier.ledger.writers later.ledger.writers) ∧
      (∀ lookup ∈ lookups, Grows lookup.ledger.writers (pass root false .empty).writers) ∧
      (pass root false .empty).Sound := by
  have empty : (Watch.mk .empty []).Good := ⟨sound_nothingLive [], by simp, .nil, by simp⟩
  obtain ⟨lookups, eq, good, -⟩ := keeps_pass root false _ empty
  refine ⟨lookups, ?_, good.looked, good.ordered, good.sofar, good.sound⟩
  rw [guardedCheck, eq]
  rfl

/-- A step for each item of a list, which nothing has written, collects what is captured for the items. -/
example :
    let root : Node := .mk "map" .empty <|
      .mapOver (.mk "capture" .empty (.capture "draft")) "docs" "doc" "drafts"
    (guardedCheck root ∅).map (fun found => found.2.map (·.positions)) = some [[], [0]] := by decide

end Workflow.Liveness
