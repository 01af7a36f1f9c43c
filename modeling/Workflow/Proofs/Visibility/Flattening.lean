import Workflow.Inference
import Workflow.Proofs.Contract.Flattening

/-! Plain groups in groups of their kind, and plain timeouts. Neither the contract check nor the
visibility of other nodes depends on them. -/
namespace Workflow

namespace Inference

/-- The classes of a step and of all below it, given whether anything comes after it. -/
def pass (policy : VisibilityPolicy) (node : Node) : Pass :=
  node.fold (step policy)

/-- The entries of nodes with other names. -/
def others (name : String) (entries : List (String × Visibility)) : List (String × Visibility) :=
  entries.filter (·.1 ≠ name)

/-- The class of a name, if it has one yet, together with one more entry of the name. -/
def merged (held : Option Visibility) (entry : String × Visibility) : Option Visibility :=
  some (match held with
    | some other => max other entry.2
    | none => entry.2)

section

variable {ι : Type} {wrapper name : String} {policy : VisibilityPolicy}
  {entries more : List (String × Visibility)} {f g : ι → Pass} {parts : List ι}

theorem pass_eq (policy : VisibilityPolicy) (node : Node) :
    pass policy node = step policy node (node.kind.map (pass policy)) :=
  Tree.fold_eq (step policy) node

@[simp] theorem others_append (name : String) (entries more : List (String × Visibility)) :
    others name (entries ++ more) = others name entries ++ others name more :=
  List.filter_append ..

@[simp] theorem others_own (name : String) (shown : Visibility)
    (entries : List (String × Visibility)) :
    others name ((name, shown) :: entries) = others name entries :=
  List.filter_cons_of_neg (by simp)

theorem others_cons_congr (entry : String × Visibility)
    (h : others name entries = others name more) :
    others name (entry :: entries) = others name (entry :: more) := by
  simp only [others] at h
  simp only [others, List.filter_cons, h]

theorem others_flatMap (name : String) (parts : List ι) (f : ι → List (String × Visibility)) :
    others name (parts.flatMap f) = parts.flatMap fun part => others name (f part) := by
  simp only [others, List.filter_flatMap]

/-- The class of a name is the most visible one among the entries of that name. -/
theorem get?_foldl_add (entries : List (String × Visibility)) (map : VisibilityMap)
    (name : String) :
    (entries.foldl add map).get? name =
      (entries.filter (·.1 = name)).foldl merged (map.get? name) := by
  induction entries generalizing map with
  | nil => rfl
  | cons entry rest ih =>
    rw [List.foldl_cons, ih, add, KeyMap.get?_insert]
    by_cases same : entry.1 = name
    · subst same
      rw [if_pos rfl, List.filter_cons_of_pos (by simp), List.foldl_cons]
      rfl
    · rw [if_neg (Ne.symm same), List.filter_cons_of_neg (by simp [same])]

/-- The class of a name depends on the entries of that name only. -/
theorem get?_foldl_add_congr (h : others wrapper entries = others wrapper more)
    (other : name ≠ wrapper) (map : VisibilityMap) :
    (entries.foldl add map).get? name = (more.foldl add map).get? name := by
  have named (entries : List (String × Visibility)) :
      entries.filter (·.1 = name) = (others wrapper entries).filter (·.1 = name) := by
    rw [others, List.filter_filter]
    refine List.filter_congr fun entry _ => ?_
    by_cases same : entry.1 = name
    · simp [same, other]
    · simp [same]
  rw [get?_foldl_add, get?_foldl_add, named entries, named more, h]

theorem inOrder_append (first : List Pass) {second : List Pass} (nonempty : second ≠ [])
    (flag : Bool) : inOrder (first ++ second) flag = inOrder first true ++ inOrder second flag := by
  induction first with
  | nil => rfl
  | cons pass rest ih =>
    cases rest with
    | nil =>
      obtain ⟨next, others, rfl⟩ := List.exists_cons_of_ne_nil nonempty
      rfl
    | cons next others =>
      change pass true ++ inOrder (next :: others ++ second) flag =
        pass true ++ inOrder (next :: others) true ++ inOrder second flag
      rw [ih, List.append_assoc]

/-- Something comes after a group that others follow, and so after all its members. -/
theorem others_inOrder_flatten (before after : List Pass) {members : List Pass} {group : Pass}
    (nonempty : members ≠ [])
    (same : ∀ flag, others wrapper (group flag) = others wrapper (inOrder members flag))
    (flag : Bool) :
    others wrapper (inOrder (before ++ group :: after) flag) =
      others wrapper (inOrder (before ++ (members ++ after)) flag) := by
  have joined : members ++ after ≠ [] := List.append_ne_nil_of_left_ne_nil nonempty after
  rw [inOrder_append before (List.cons_ne_nil _ _), inOrder_append before joined, others_append,
    others_append]
  cases after with
  | nil => rw [List.append_nil, inOrder, same]
  | cons next rest =>
    have group_first : inOrder (group :: next :: rest) flag =
        group true ++ inOrder (next :: rest) flag := rfl
    rw [group_first, inOrder_append members (List.cons_ne_nil _ _), others_append, others_append,
      same]

theorem others_inOrder_congr
    (h : ∀ part ∈ parts, ∀ flag, others name (f part flag) = others name (g part flag))
    (flag : Bool) :
    others name (inOrder (parts.map f) flag) = others name (inOrder (parts.map g) flag) := by
  induction parts with
  | nil => rfl
  | cons part parts ih =>
    have rest := ih fun other mem => h other (List.mem_cons_of_mem part mem)
    cases parts with
    | nil => exact h part List.mem_cons_self flag
    | cons next parts =>
      have first := h part List.mem_cons_self true
      change others name (f part true ++ inOrder ((next :: parts).map f) flag) =
        others name (g part true ++ inOrder ((next :: parts).map g) flag)
      rw [others_append, others_append, first, rest]

theorem others_flatMap_congr {flag : Bool}
    (h : ∀ part ∈ parts, others name (f part flag) = others name (g part flag)) :
    others name ((parts.map f).flatMap fun pass => pass flag) =
      others name ((parts.map g).flatMap fun pass => pass flag) := by
  rw [List.flatMap_map, List.flatMap_map, others_flatMap, others_flatMap]
  exact List.flatMap_congr h

theorem others_inside_congr {kind : Kind ι}
    (h : ∀ part ∈ kind.children, ∀ flag, others name (f part flag) = others name (g part flag))
    (flag : Bool) :
    others name (inside (kind.map f) flag) = others name (inside (kind.map g) flag) := by
  cases kind with
  | sequence parts => exact others_inOrder_congr h flag
  | parallel parts => exact others_flatMap_congr fun part mem => h part mem true
  | fallback parts | race parts => exact others_flatMap_congr fun part mem => h part mem flag
  | route key rules otherwise =>
    change others name
        ((Kind.map f (.route key rules otherwise)).children.flatMap fun pass => pass false) =
      others name
        ((Kind.map g (.route key rules otherwise)).children.flatMap fun pass => pass false)
    rw [Kind.children_map, Kind.children_map]
    exact others_flatMap_congr fun part mem => h part mem false
  | loop body _ _ | mapOver body _ _ _ => exact h body (List.mem_singleton_self body) true
  | timeout body _ => exact h body (List.mem_singleton_self body) flag
  | leaf | transform | tap | gate | transfer | capture => rfl

theorem others_pass_congr {root : String} {contract : Contract} {pairs : Kind (Node × Node)}
    (h : ∀ pair ∈ pairs.children, ∀ flag,
      others name (pass policy pair.1 flag) = others name (pass policy pair.2 flag))
    (flag : Bool) :
    others name (pass policy (.mk root contract (pairs.map Prod.fst)) flag) =
      others name (pass policy (.mk root contract (pairs.map Prod.snd)) flag) := by
  have shown : (pairs.map Prod.fst).visibility flag policy =
      (pairs.map Prod.snd).visibility flag policy := by
    cases pairs <;> rfl
  rw [pass_eq, pass_eq, step, step, Tree.kind, Tree.kind, Kind.map_map, Kind.map_map, shown]
  exact others_cons_congr _ (others_inside_congr h flag)

theorem others_pass_of_flattens {part flat : Node} (h : part.Flattens flat wrapper)
    (flag : Bool) :
    others wrapper (pass policy part flag) = others wrapper (pass policy flat flag) := by
  have own (kind : Kind Node) (flag : Bool) :
      others wrapper (pass policy (.mk wrapper .empty kind) flag) =
        others wrapper (inside (kind.map (pass policy)) flag) := by
    rw [pass_eq]
    exact others_own ..
  cases h with
  | @sequence name _ contract before members after nonempty =>
    rw [pass_eq, pass_eq]
    refine others_cons_congr _ ?_
    have mapped : members.map (pass policy) ≠ [] := mt List.map_eq_nil_iff.1 nonempty
    have flat := others_inOrder_flatten (before.map (pass policy)) (after.map (pass policy)) mapped
      (own (.sequence members)) flag
    simpa [Tree.kind, Kind.map, inside] using flat
  | @parallel name _ contract before members after _ =>
    rw [pass_eq, pass_eq]
    refine others_cons_congr _ ?_
    have inner := own (.parallel members) true
    simp only [Kind.map, inside, List.flatMap_map] at inner
    simp [Tree.kind, Kind.map, inside, List.flatMap_map, inner]
  | @fallback name _ contract before members after _ =>
    rw [pass_eq, pass_eq]
    refine others_cons_congr _ ?_
    have inner := own (.fallback members) flag
    simp only [Kind.map, inside, List.flatMap_map] at inner
    simp [Tree.kind, Kind.map, inside, List.flatMap_map, inner]
  | @timeout _ body deadline => exact own (.timeout flat deadline) flag

end

end Inference

/-- Without a plain group in a group of its kind, or without a plain timeout, the contract check
finds the same, in the same order, and all other names keep their visibility. -/
theorem invisible_of_flattens {root part flat : Node} {place : Place} {wrapper : String}
    (at_ : root.at? place = some part) (h : part.Flattens flat wrapper) :
    (∀ seed, checkWith (root.replaceAt place flat) seed = checkWith root seed) ∧
      ∀ policy name, name ≠ wrapper →
        (inferVisibility (root.replaceAt place flat) policy).get? name =
          (inferVisibility root policy).get? name := by
  refine ⟨checkWith_of_flattens at_ h, fun policy name other => ?_⟩
  have classes := Tree.related_replaceAt
    (r := fun step other => ∀ flag, Inference.others wrapper (Inference.pass policy step flag) =
      Inference.others wrapper (Inference.pass policy other flag))
    (fun _ _ => rfl) (fun _ _ _ => Inference.others_pass_congr) at_
    (Inference.others_pass_of_flattens h)
  exact (Inference.get?_foldl_add_congr (classes false) other ∅).symm

/-- The plan is a group of its own, and its second step has a deadline. -/
def plannedFlow : Node :=
  flowOf [.mk "plan" .empty (.sequence
    [transformOf (.copy "topic" "draft"), .mk "limit" .empty (.timeout copyDraft 5)])]

theorem invisible_of_flattens_plannedFlow :
    let first := transformOf (.copy "topic" "draft")
    let limited : Node := .mk "limit" .empty (.timeout copyDraft 5)
    let joined := flowOf [first, limited]
    let unlimited := plannedFlow.replaceAt [0, 1] copyDraft
    (plannedFlow.Flattens joined "plan" ∧ limited.Flattens copyDraft "limit" ∧
        plannedFlow.at? [0, 1] = some limited) ∧
      (checkWith joined ∅ = checkWith plannedFlow ∅ ∧
        (inferVisibility joined .filtered).get? "transform" =
          (inferVisibility plannedFlow .filtered).get? "transform") ∧
      (checkWith unlimited ∅ = checkWith plannedFlow ∅ ∧
        (inferVisibility unlimited .filtered).get? "plan" =
          (inferVisibility plannedFlow .filtered).get? "plan") ∧
      (inferVisibility joined .filtered).get? "plan" ≠
        (inferVisibility plannedFlow .filtered).get? "plan" := by
  intro first limited joined unlimited
  have group : plannedFlow.Flattens joined "plan" :=
    @Tree.Flattens.sequence _ _ _ _ [] _ [] (List.cons_ne_nil first [limited])
  have deadline : limited.Flattens copyDraft "limit" := .timeout
  have at_ : plannedFlow.at? [0, 1] = some limited := rfl
  have whole : plannedFlow.at? [] = some plannedFlow := rfl
  have without_group := invisible_of_flattens whole group
  have without_deadline := invisible_of_flattens at_ deadline
  exact ⟨⟨group, deadline, at_⟩,
    ⟨without_group.1 ∅, without_group.2 .filtered "transform" (by decide)⟩,
    ⟨without_deadline.1 ∅, without_deadline.2 .filtered "plan" (by decide)⟩, by decide⟩

end Workflow
