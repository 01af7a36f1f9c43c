import Workflow.Proofs.Tree.Occurrence

/-! Trees with another part at a place. What relates the part and its replacement relates the whole
trees, too, as long as every step passes it on from the steps directly below. -/
namespace Workflow

namespace Kind

variable {α β γ : Type}

/-- Maps each part together with its position among the children. -/
def mapIdx (f : Nat → α → β) : Kind α → Kind β
  | .leaf spec => .leaf spec
  | .sequence children => .sequence (children.mapIdx f)
  | .parallel children => .parallel (children.mapIdx f)
  | .loop body bound exit => .loop (f 0 body) bound exit
  | .transform ops => .transform ops
  | .tap action => .tap action
  | .fallback children => .fallback (children.mapIdx f)
  | .race children => .race (children.mapIdx f)
  | .gate predicate message approvalKey => .gate predicate message approvalKey
  | .mapOver body listKey itemKey outputKey => .mapOver (f 0 body) listKey itemKey outputKey
  | .timeout body deadline => .timeout (f 0 body) deadline
  | .route key rules otherwise =>
    .route key (rules.mapIdx fun i rule => ⟨rule.predicate, f i rule.target⟩)
      (otherwise.map (f rules.length))
  | .transfer target condition => .transfer target condition
  | .capture key => .capture key

@[simp] theorem children_mapIdx (f : Nat → α → β) (kind : Kind α) :
    (kind.mapIdx f).children = kind.children.mapIdx f := by
  cases kind with
  | route key rules otherwise =>
    cases otherwise <;>
      simp [mapIdx, children, List.mapIdx_eq_zipIdx_map, List.zipIdx_append, List.zipIdx_map,
        Function.comp_def]
  | _ => simp [mapIdx, children]

@[simp] theorem map_map (g : β → γ) (f : α → β) (kind : Kind α) :
    (kind.map f).map g = kind.map (g ∘ f) := by
  cases kind <;> simp [map, Function.comp_def]

theorem map_congr {f g : α → β} {kind : Kind α} (h : ∀ part ∈ kind.children, f part = g part) :
    kind.map f = kind.map g := by
  cases kind with
  | route key rules otherwise =>
    have arms : ∀ rule ∈ rules, f rule.target = g rule.target := fun rule mem =>
      h _ (List.mem_append_left _ (List.mem_map_of_mem mem))
    have default : otherwise.map f = otherwise.map g :=
      Option.map_congr fun part mem => h part (List.mem_append_right _ (by simp_all))
    have rules' : (rules.map fun rule => Rule.mk rule.predicate (f rule.target)) =
        rules.map fun rule => ⟨rule.predicate, g rule.target⟩ :=
      List.map_congr_left fun rule mem => by rw [arms rule mem]
    rw [map, map, rules', default]
  | sequence parts | parallel parts | fallback parts | race parts =>
    have same : parts.map f = parts.map g := List.map_congr_left h
    rw [map, map, same]
  | loop body _ _ | timeout body _ | mapOver body _ _ _ =>
    rw [map, map, h body (List.mem_singleton_self body)]
  | leaf | transform | tap | gate | transfer | capture => rfl

@[simp] theorem map_mapIdx (g : β → γ) (f : Nat → α → β) (kind : Kind α) :
    (kind.mapIdx f).map g = kind.mapIdx fun i part => g (f i part) := by
  cases kind <;> simp [mapIdx, map, List.mapIdx_eq_zipIdx_map, Function.comp_def]

@[simp] theorem mapIdx_self (kind : Kind α) : kind.mapIdx (fun _ part => part) = kind := by
  cases kind <;> simp [mapIdx, List.mapIdx_eq_zipIdx_map]

end Kind

namespace Tree

variable {ν : Type}

/-- The tree with another part at the place, if there is a step at the place. -/
def replaceAt (tree : Tree ν) : Place → Tree ν → Tree ν
  | [], part => part
  | i :: place, part =>
    .mk tree.name tree.contract
      (tree.kind.mapIdx fun j child => if j = i then child.replaceAt place part else child)

/-- A relation that steps pass on from the steps directly below relates a tree to the one with a
related part. -/
theorem related_replaceAt {r : Tree ν → Tree ν → Prop} (refl : ∀ tree, r tree tree)
    (step : ∀ name contract (pairs : Kind (Tree ν × Tree ν)),
      (∀ pair ∈ pairs.children, r pair.1 pair.2) →
        r (.mk name contract (pairs.map Prod.fst)) (.mk name contract (pairs.map Prod.snd)))
    {root part other : Tree ν} {place : Place} (at_ : root.at? place = some part)
    (related : r part other) : r root (root.replaceAt place other) := by
  induction place generalizing root with
  | nil =>
    obtain rfl := Option.some.inj at_
    exact related
  | cons i place ih =>
    obtain ⟨child, hc, h⟩ := at?_cons_eq_some.1 at_
    obtain ⟨name, contract, kind⟩ := root
    let pairs := kind.mapIdx fun j part =>
      (part, if j = i then part.replaceAt place other else part)
    have same : pairs.map Prod.fst = kind := by simp [pairs]
    have replaced : pairs.map Prod.snd =
        kind.mapIdx fun j part => if j = i then part.replaceAt place other else part := by
      simp [pairs]
    have each : ∀ pair ∈ pairs.children, r pair.1 pair.2 := by
      intro pair mem
      rw [Kind.children_mapIdx] at mem
      obtain ⟨j, lt, rfl⟩ := List.mem_mapIdx.1 mem
      by_cases eq : j = i
      · subst eq
        obtain rfl : kind.children[j] = child :=
          Option.some.inj ((List.getElem?_eq_getElem lt).symm.trans hc)
        simpa using ih h
      · simpa [eq] using refl _
    have whole := step name contract pairs each
    rwa [same, replaced] at whole

end Tree

end Workflow
