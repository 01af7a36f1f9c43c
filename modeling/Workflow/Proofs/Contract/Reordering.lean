import Workflow.Proofs.Contract.Effect
import Workflow.Proofs.Contract.Transforms
import Workflow.Proofs.Tree.Replacement

/-! The order of steps that run side by side or as alternatives. It decides in which order findings
come and which writers a ledger numbers first, and nothing else. -/
namespace Workflow

/-- Another order of steps that run side by side or as alternatives. Other kinds stay as they are. -/
def Kind.reorder {α : Type} (order : List α) : Kind α → Kind α
  | .parallel _ => .parallel order
  | .fallback _ => .fallback order
  | .race _ => .race order
  | kind => kind

def Tree.reorder {ν : Type} (group : Tree ν) (order : List (Tree ν)) : Tree ν :=
  .mk group.name group.contract (group.kind.reorder order)

/-- The steps ask for and write the same, whatever there is below them. -/
structure Tree.LooksLike (step other : Node) : Prop where
  demand : Node.demand step = Node.demand other
  asks : Availability.demandErrors step = Availability.demandErrors other
  writes : Availability.ownWrites step = Availability.ownWrites other
  records : Liveness.Effect.writing step = Liveness.Effect.writing other
  writer : Liveness.isWriter step.kind = Liveness.isWriter other.kind

theorem Tree.looksLike_map {α : Type} (name : String) (contract : Contract) (kind : Kind α)
    (f g : α → Node) :
    Tree.LooksLike (.mk name contract (kind.map f)) (.mk name contract (kind.map g)) := by
  have demand : Node.demand (.mk name contract (kind.map f)) =
      Node.demand (.mk name contract (kind.map g)) := by
    have reads : Tree.reads (.mk name contract (kind.map f)) =
        Tree.reads (.mk name contract (kind.map g)) := by
      simp [Tree.reads, Tree.kind, Tree.contract]
    have implied : Node.impliedDemand (.mk name contract (kind.map f)) =
        Node.impliedDemand (.mk name contract (kind.map g)) := by
      cases kind <;> simp [Node.impliedDemand, Tree.kind, Kind.map, List.flatMap_map]
    rw [Node.demand, Node.demand, reads, implied]
  have writes : Tree.writes (.mk name contract (kind.map f)) =
      Tree.writes (.mk name contract (kind.map g)) := by
    simp [Tree.writes, Tree.kind, Tree.contract]
  refine ⟨demand, ?_, ?_, ?_, ?_⟩
  · funext available
    cases kind <;> simp only [Availability.demandErrors, demand] <;> rfl
  · cases kind <;> rfl
  · funext terminal
    simp only [Liveness.Effect.writing, writes]
    rfl
  · cases kind <;> rfl

theorem Tree.looksLike_reorder (group : Node) (order : List Node) :
    Tree.LooksLike group (group.reorder order) := by
  obtain ⟨name, contract, kind⟩ := group
  cases kind <;> exact ⟨rfl, rfl, rfl, rfl, rfl⟩

namespace Availability

/-- The same keys are available, and the same is found in any order. -/
structure Outcome.Alike (left right : Outcome) : Prop where
  available : left.available = right.available
  diagnostics : left.diagnostics.Perm right.diagnostics

/-- Whatever is available before, the outcomes are alike. -/
def Pass.Alike (first second : Pass) : Prop :=
  ∀ available, (first available).Alike (second available)

section

variable {ι : Type} {first second : Pass} {rest others : List Pass} {f g : ι → Pass}
  {parts : List ι}

theorem Pass.Alike.refl (pass : Pass) : pass.Alike pass :=
  fun _ => ⟨rfl, .rfl⟩

theorem alike_inOrder_cons (h : first.Alike second) (h' : (inOrder rest).Alike (inOrder others)) :
    (inOrder (first :: rest)).Alike (inOrder (second :: others)) := by
  intro available
  obtain ⟨same, found⟩ := h available
  obtain ⟨same', found'⟩ := h' (first available).available
  simp only [inOrder, ← same]
  exact ⟨same', found.append found'⟩

theorem alike_inOrder (h : ∀ part ∈ parts, (f part).Alike (g part)) :
    (inOrder (parts.map f)).Alike (inOrder (parts.map g)) := by
  induction parts with
  | nil => exact .refl _
  | cons part parts ih =>
    have rest := ih fun other mem => h other (List.mem_cons_of_mem part mem)
    exact alike_inOrder_cons (h part List.mem_cons_self) rest

private theorem available_map (h : ∀ part ∈ parts, (f part).Alike (g part)) (available : KeySet) :
    ((parts.map f).map fun pass => pass available).map (·.available) =
      ((parts.map g).map fun pass => pass available).map (·.available) := by
  simp only [List.map_map]
  exact List.map_congr_left fun part mem => (h part mem available).available

private theorem diagnostics_map (h : ∀ part ∈ parts, (f part).Alike (g part))
    (available : KeySet) :
    (((parts.map f).map fun pass => pass available).flatMap (·.diagnostics)).Perm
      (((parts.map g).map fun pass => pass available).flatMap (·.diagnostics)) := by
  simp only [List.map_map, List.flatMap_map]
  exact List.Perm.flatMap_left parts fun part mem => (h part mem available).diagnostics

theorem alike_sideBySide (h : ∀ part ∈ parts, (f part).Alike (g part)) :
    (sideBySide (parts.map f)).Alike (sideBySide (parts.map g)) := by
  intro available
  refine ⟨?_, diagnostics_map h available⟩
  rw [sideBySide, sideBySide, available_map h]

theorem alike_oneOf (h : ∀ part ∈ parts, (f part).Alike (g part)) :
    (oneOf (parts.map f)).Alike (oneOf (parts.map g)) := by
  intro available
  refine ⟨?_, diagnostics_map h available⟩
  rw [oneOf, oneOf, available_map h]

theorem alike_sideBySide_of_perm (perm : rest.Perm others) :
    (sideBySide rest).Alike (sideBySide others) := by
  intro available
  have outcomes := perm.map fun pass => pass available
  refine ⟨congrArg (available ∪ ·) ?_, outcomes.flatMap_right _⟩
  ext key
  simp only [KeySet.mem_unions, (outcomes.map _).mem_iff]

theorem alike_oneOf_of_perm (perm : rest.Perm others) : (oneOf rest).Alike (oneOf others) := by
  intro available
  have outcomes := perm.map fun pass => pass available
  refine ⟨congrArg (available ∪ ·) ?_, outcomes.flatMap_right _⟩
  ext key
  simp only [mem_common, (outcomes.map _).mem_iff, ne_eq, ← List.length_eq_zero_iff,
    (outcomes.map _).length_eq]

theorem alike_step {node other : Node} {below below' : Kind Pass} (look : node.LooksLike other)
    (h : (inside below).Alike (inside below')) : (step node below).Alike (step other below') := by
  rw [step, step, look.asks, look.writes]
  exact alike_inOrder_cons (.refl _) (alike_inOrder_cons h (.refl _))

theorem alike_inside {kind : Kind ι} (h : ∀ part ∈ kind.children, (f part).Alike (g part)) :
    (inside (kind.map f)).Alike (inside (kind.map g)) := by
  cases kind with
  | sequence parts => exact alike_inOrder h
  | parallel parts => exact alike_sideBySide h
  | fallback parts | race parts => exact alike_oneOf h
  | route key rules otherwise =>
    change (oneOf (Kind.map f (.route key rules otherwise)).children).Alike
      (oneOf (Kind.map g (.route key rules otherwise)).children)
    rw [Kind.children_map, Kind.children_map]
    exact alike_oneOf h
  | loop body _ _ | timeout body _ => exact h body (List.mem_singleton_self body)
  | mapOver body _ itemKey _ =>
    have item := h body (List.mem_singleton_self body)
    exact fun available => ⟨rfl, (item (available.insert itemKey)).diagnostics⟩
  | leaf | transform | tap | gate | transfer | capture => exact .refl _

theorem alike_pass {name : String} {contract : Contract} {pairs : Kind (Node × Node)}
    (h : ∀ pair ∈ pairs.children, (pass pair.1).Alike (pass pair.2)) :
    (pass (.mk name contract (pairs.map Prod.fst))).Alike
      (pass (.mk name contract (pairs.map Prod.snd))) := by
  rw [pass_eq, pass_eq, Tree.kind, Tree.kind, Kind.map_map, Kind.map_map]
  exact alike_step (Tree.looksLike_map ..) (alike_inside h)

theorem alike_reorder {group : Node} {order : List Node} (perm : order.Perm group.children) :
    (pass group).Alike (pass (group.reorder order)) := by
  rw [pass_eq, pass_eq]
  refine alike_step (Tree.looksLike_reorder group order) ?_
  obtain ⟨name, contract, kind⟩ := group
  have passes := (perm.map pass).symm
  cases kind with
  | parallel parts => exact alike_sideBySide_of_perm passes
  | fallback parts | race parts => exact alike_oneOf_of_perm passes
  | _ => exact .refl _

end

end Availability

namespace Liveness

/-- The same keys are used and replaced, and the same entries come in any order. -/
structure Effect.Alike (left right : Effect) : Prop where
  uses : left.uses = right.uses
  replaces : left.replaces = right.replaces
  adds : left.adds.Perm right.adds

section

variable {ι : Type} {first second first' second' : Effect} {effects others : List Effect}
  {f g : ι → Bool → Effect} {parts : List ι}

theorem Effect.Alike.refl (effect : Effect) : effect.Alike effect :=
  ⟨rfl, rfl, .rfl⟩

theorem Entry.after_congr (h : first.Alike second) (entry : Entry) :
    entry.after first = entry.after second := by
  rw [Entry.after, Entry.after, h.uses, h.replaces]

theorem Effect.Alike.andThen (h : first.Alike second) (h' : first'.Alike second') :
    (first.andThen first').Alike (second.andThen second') where
  uses := by rw [Effect.andThen, Effect.andThen, h.uses, h.replaces, h'.uses]
  replaces := by rw [Effect.andThen, Effect.andThen, h.replaces, h'.replaces]
  adds := by
    have each : first.adds.map (·.after first') = first.adds.map (·.after second') :=
      List.map_congr_left fun entry _ => Entry.after_congr h' entry
    rw [Effect.andThen, Effect.andThen, Effect.on, Effect.on, each]
    exact (h.adds.map _).append h'.adds

theorem alike_inOrder (h : ∀ part ∈ parts, ∀ after, (f part after).Alike (g part after))
    (after : Bool) :
    (Effect.inOrder (parts.map f) after).Alike (.inOrder (parts.map g) after) := by
  induction parts with
  | nil => exact .refl _
  | cons part parts ih =>
    have rest := ih fun other mem => h other (List.mem_cons_of_mem part mem)
    cases parts with
    | nil => exact h part List.mem_cons_self after
    | cons next parts => exact (h part List.mem_cons_self true).andThen rest

theorem alike_oneOf {after : Bool} (h : ∀ part ∈ parts, (f part after).Alike (g part after)) :
    (Effect.oneOf ((parts.map f).map (· after))).Alike (.oneOf ((parts.map g).map (· after))) where
  uses := by
    simp only [Effect.oneOf, List.map_map]
    exact congrArg KeySet.unions (List.map_congr_left fun part mem => (h part mem).uses)
  replaces := by
    simp only [Effect.oneOf, List.map_map]
    exact congrArg _ (List.map_congr_left fun part mem => (h part mem).replaces)
  adds := by
    simp only [Effect.oneOf, List.map_map, List.flatMap_map]
    exact List.Perm.flatMap_left parts fun part mem => (h part mem).adds

theorem alike_oneOf_of_perm (perm : effects.Perm others) :
    (Effect.oneOf effects).Alike (.oneOf others) where
  uses := by
    ext key
    simp only [Effect.oneOf, KeySet.mem_unions, (perm.map _).mem_iff]
  replaces := by
    ext key
    simp only [Effect.oneOf, Availability.mem_common, (perm.map _).mem_iff, ne_eq,
      ← List.length_eq_zero_iff, (perm.map _).length_eq]
  adds := perm.flatMap_right _

theorem Effect.Alike.perItem (h : first.Alike second) : first.perItem.Alike second.perItem :=
  ⟨h.uses, rfl, h.adds.map _⟩

theorem alike_step {node other : Node} {below below' : Kind (Bool → Effect)} {after : Bool}
    (look : node.LooksLike other)
    (h : (Effect.inside below after).Alike (.inside below' after)) :
    (Effect.step node below after).Alike (.step other below' after) := by
  rw [Effect.step, Effect.step, look.demand, look.writer, look.records]
  have inner := (Effect.Alike.refl (.asking (Node.demand other))).andThen h
  split
  · exact inner.andThen (.refl _)
  · exact inner

theorem alike_inside {kind : Kind ι} {after : Bool}
    (h : ∀ part ∈ kind.children, ∀ after, (f part after).Alike (g part after)) :
    (Effect.inside (kind.map f) after).Alike (.inside (kind.map g) after) := by
  cases kind with
  | sequence parts => exact alike_inOrder h after
  | parallel parts => exact alike_oneOf fun part mem => h part mem true
  | fallback parts | race parts => exact alike_oneOf fun part mem => h part mem after
  | route key rules otherwise =>
    change (Effect.oneOf ((Kind.map f (.route key rules otherwise)).children.map (· after))).Alike
      (.oneOf ((Kind.map g (.route key rules otherwise)).children.map (· after)))
    rw [Kind.children_map, Kind.children_map]
    exact alike_oneOf fun part mem => h part mem after
  | loop body _ _ => exact h body (List.mem_singleton_self body) true
  | timeout body _ => exact h body (List.mem_singleton_self body) after
  | mapOver body _ _ _ => exact (h body (List.mem_singleton_self body) true).perItem
  | leaf | transform | tap | gate | transfer | capture => exact .refl _

theorem alike_effectOf {name : String} {contract : Contract} {pairs : Kind (Node × Node)}
    (h : ∀ pair ∈ pairs.children, ∀ after, (effectOf pair.1 after).Alike (effectOf pair.2 after))
    (after : Bool) :
    (effectOf (.mk name contract (pairs.map Prod.fst)) after).Alike
      (effectOf (.mk name contract (pairs.map Prod.snd)) after) := by
  rw [effectOf_eq, effectOf_eq, Tree.kind, Tree.kind, Kind.map_map, Kind.map_map]
  exact alike_step (Tree.looksLike_map ..) (alike_inside h)

theorem alike_reorder {group : Node} {order : List Node} (perm : order.Perm group.children)
    (after : Bool) : (effectOf group after).Alike (effectOf (group.reorder order) after) := by
  rw [effectOf_eq, effectOf_eq]
  refine alike_step (Tree.looksLike_reorder group order) ?_
  obtain ⟨name, contract, kind⟩ := group
  have effects := (perm.map effectOf).symm
  cases kind with
  | parallel parts => exact alike_oneOf_of_perm (effects.map (· true))
  | fallback parts | race parts => exact alike_oneOf_of_perm (effects.map (· after))
  | _ => exact .refl _

end

theorem deadOutputs_perm {root other : Node}
    (h : (effectOf root false).Alike (effectOf other false)) :
    (deadOutputs root).Perm (deadOutputs other) := by
  rw [deadOutputs_eq_adds, deadOutputs_eq_adds]
  exact ((h.adds.map _).filter _).map _

end Liveness

/-- The steps of a group that run side by side or as alternatives can stand in any order: the check
finds the same, in some order. -/
theorem checkWith_reorder_perm {root group : Node} {place : Place} {order : List Node}
    (at_ : root.at? place = some group) (perm : order.Perm group.children) (seed : KeySet) :
    (checkWith (root.replaceAt place (group.reorder order)) seed).Perm (checkWith root seed) := by
  have found := Tree.related_replaceAt
    (r := fun step other => (Availability.pass step).Alike (Availability.pass other))
    (fun step => .refl _) (fun _ _ _ => Availability.alike_pass) at_
    (Availability.alike_reorder perm)
  have effects := Tree.related_replaceAt
    (r := fun step other => ∀ after,
      (Liveness.effectOf step after).Alike (Liveness.effectOf other after))
    (fun step _ => .refl _) (fun _ _ _ => Liveness.alike_effectOf) at_
    (Liveness.alike_reorder perm)
  exact ((found seed).diagnostics.append (Liveness.deadOutputs_perm (effects false))).symm

/-- Drafts that are made side by side. -/
def draftsOf (steps : List Node) : Node :=
  .mk "drafts" .empty (.parallel steps)

theorem checkWith_reorder_perm_drafts :
    let first := transformOf (.copy "plan" "draft")
    let second := transformOf (.copy "topic" "draft")
    let group := draftsOf [first, second]
    let root := flowOf [group, copyDraft]
    let other := root.replaceAt [0] (group.reorder [second, first])
    root.at? [0] = some group ∧ [second, first].Perm group.children ∧
      (checkWith other ∅).Perm (checkWith root ∅) ∧ checkWith other ∅ ≠ checkWith root ∅ := by
  intro first second group root other
  have at_ : root.at? [0] = some group := rfl
  have perm : [second, first].Perm group.children := List.Perm.swap first second []
  exact ⟨at_, perm, checkWith_reorder_perm at_ perm ∅, by decide⟩

end Workflow
