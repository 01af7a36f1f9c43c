import Workflow.Contract.Availability
import Workflow.Proofs.Contract.Choice

/-! The available keys at each place of a tree, in terms of the choices that lead there. -/
namespace Workflow

/-- A completed step leaves the key, whatever is chosen. -/
def Tree.Ensures (root : Node) (key : String) : Prop :=
  ∀ choice : Choice, choice.Complete root → choice.Completes root fun _ step => key ∈ step.writes

namespace Tree

variable {root : Node} {key : String}

theorem ensures_of_perItem {item : String} (h : root.kind.itemKey? = some item) :
    root.Ensures key ↔ key ∈ root.writes := by
  have only (choice : Choice) :
      choice.Completes root (fun _ step => key ∈ step.writes) ↔ key ∈ root.writes := by
    rw [Choice.completes_iff]
    simp [h]
  refine ⟨fun ensures => (only _).1 (ensures _ (Choice.complete_first root)), fun h choice _ => ?_⟩
  exact (only choice).2 h

theorem ensures_of_exclusive (h : root.kind.isExclusive) :
    root.Ensures key ↔
      key ∈ root.writes ∨ root.children ≠ [] ∧ ∀ child ∈ root.children, child.Ensures key := by
  have free := Kind.itemKey?_of_isExclusive h
  constructor
  · intro ensures
    by_cases own : key ∈ root.writes
    · exact .inl own
    refine .inr ⟨fun empty => ?_, fun child mem => ?_⟩
    · have completes := ensures _ (Choice.complete_first root)
      rw [Choice.completes_iff] at completes
      simp [own, empty] at completes
    · by_contra fails
      obtain ⟨i, hi⟩ := List.mem_iff_getElem?.1 mem
      obtain ⟨bad, complete, misses⟩ : ∃ bad : Choice, bad.Complete child ∧
          ¬ bad.Completes child fun _ step => key ∈ step.writes := by
        simpa [Ensures] using fails
      obtain ⟨choice, whole, first, inner⟩ := Choice.exists_complete (some i)
        (fun j other choice =>
          j = i → ¬ choice.Completes other fun _ step => key ∈ step.writes)
        (fun _ _ => ⟨i, (List.getElem?_eq_some_iff.1 hi).1, rfl⟩) (fun j other hj => by
          by_cases same : j = i
          · subst j
            obtain rfl : child = other := Option.some.inj (hi.symm.trans hj)
            exact ⟨bad, complete, fun _ => misses⟩
          · exact ⟨_, Choice.complete_first other, fun eq => absurd eq same⟩)
      rcases Choice.completes_iff.1 (ensures choice whole) with
        h' | ⟨-, j, other, hj, here, completes⟩
      · exact own h'
      · obtain rfl : i = j := Option.some.inj (first.symm.trans (here h))
        exact inner i other hj rfl completes
  · intro found choice complete
    rcases found with own | ⟨nonempty, each⟩
    · exact Choice.completes_iff.2 (.inl own)
    · obtain ⟨i, lt, first⟩ := (Choice.obeys_iff.1 complete).1 h nonempty
      have hi : root.children[i]? = some root.children[i] := List.getElem?_eq_getElem lt
      refine Choice.completes_iff.2 (.inr ⟨free, i, _, hi, fun _ => first, ?_⟩)
      exact each _ (List.getElem_mem lt) _ (complete.inner hi)

theorem ensures_of_all (inclusive : ¬ root.kind.isExclusive) (free : root.kind.itemKey? = none) :
    root.Ensures key ↔ key ∈ root.writes ∨ ∃ child ∈ root.children, child.Ensures key := by
  constructor
  · intro ensures
    by_contra fails
    obtain ⟨own, each⟩ : key ∉ root.writes ∧ ∀ child ∈ root.children, ¬ child.Ensures key := by
      simpa using fails
    obtain ⟨choice, whole, -, misses⟩ := Choice.exists_complete none
      (fun _ child choice => ¬ choice.Completes child fun _ step => key ∈ step.writes)
      (fun exclusive _ => absurd exclusive inclusive)
      (fun i child hi => by simpa [Ensures] using each child (List.mem_of_getElem? hi))
    rcases Choice.completes_iff.1 (ensures choice whole) with h | ⟨-, i, child, hi, -, completes⟩
    · exact own h
    · exact misses i child hi completes
  · intro found choice complete
    rcases found with own | ⟨child, mem, ensures⟩
    · exact Choice.completes_iff.2 (.inl own)
    · obtain ⟨i, hi⟩ := List.mem_iff_getElem?.1 mem
      refine Choice.completes_iff.2 (.inr ⟨free, i, child, hi, fun h => absurd h inclusive, ?_⟩)
      exact ensures _ (complete.inner hi)

end Tree

namespace Availability

/-- The keys that are available when the child at a position begins. -/
def entering (kind : Kind Node) (available : KeySet) (i : Nat) : KeySet :=
  match kind with
  | .sequence children => (inOrder ((children.take i).map pass) available).available
  | .mapOver _ _ itemKey _ => available.insert itemKey
  | _ => available

/-- The keys that are available when the step at a place begins. -/
def availableAt (root : Node) (available : KeySet) : Place → KeySet
  | [] => available
  | i :: place =>
    match root.children[i]? with
    | some child => availableAt child (entering root.kind available i) place
    | none => available

theorem pass_eq (root : Node) : pass root = step root (root.kind.map pass) :=
  Tree.fold_eq step root

@[simp] theorem availableAt_nil (root : Node) (available : KeySet) :
    availableAt root available [] = available := rfl

theorem availableAt_cons {root child : Node} {i : Nat} (h : root.children[i]? = some child)
    (available : KeySet) (place : Place) :
    availableAt root available (i :: place) =
      availableAt child (entering root.kind available i) place := by
  simp [availableAt, h]

section Diagnostics

theorem diagnostics_inOrder (children : List Node) (available : KeySet) :
    (inOrder (children.map pass) available).diagnostics =
      children.zipIdx.flatMap fun (child, i) =>
        (pass child (inOrder ((children.take i).map pass) available).available).diagnostics := by
  induction children generalizing available with
  | nil => rfl
  | cons child children ih =>
    rw [List.zipIdx_cons, List.flatMap_cons, List.zipIdx_succ, List.flatMap_map]
    simp only [List.map_cons, inOrder, ih]
    rfl

/-- Each child is checked with the keys that are available when it begins. -/
theorem diagnostics_inside (kind : Kind Node) (available : KeySet) :
    (inside (kind.map pass) available).diagnostics =
      kind.children.zipIdx.flatMap fun (child, i) =>
        (pass child (entering kind available i)).diagnostics := by
  cases kind with
  | sequence children => exact diagnostics_inOrder children available
  | parallel children | fallback children | race children =>
    simp only [entering, Kind.children]
    rw [flatMap_zipIdx children fun child => (pass child available).diagnostics]
    simp [inside, Kind.map, sideBySide, oneOf, List.flatMap_map]
  | route key rules otherwise =>
    simp only [entering]
    rw [flatMap_zipIdx _ fun child => (pass child available).diagnostics]
    change (oneOf (Kind.map pass (.route key rules otherwise)).children available).diagnostics = _
    rw [Kind.children_map]
    simp [oneOf, List.flatMap_map]
  | loop body _ _ | timeout body _ | mapOver body _ _ _ =>
    simp [inside, Kind.map, Kind.children, entering, perItem]
  | _ => rfl

theorem errors_append (first second : List Diagnostic) :
    Diagnostic.errors (first ++ second) = Diagnostic.errors first ++ Diagnostic.errors second :=
  List.filter_append ..

theorem level_of_mem_demandErrors {node : Node} {available : KeySet} {diagnostic : Diagnostic}
    (h : diagnostic ∈ demandErrors node available) : diagnostic.level = .error := by
  unfold demandErrors at h
  split at h
  · rcases List.mem_append.1 h with h | h
    · split at h <;> simp at h
      rw [h]
      rfl
    · obtain ⟨key, -, rfl⟩ := List.mem_map.1 h
      rfl
  · obtain ⟨key, -, rfl⟩ := List.mem_map.1 h
    rfl

private theorem errors_demandErrors (node : Node) (available : KeySet) :
    Diagnostic.errors (demandErrors node available) = demandErrors node available := by
  refine List.filter_eq_self.2 fun diagnostic h => ?_
  rw [level_of_mem_demandErrors h]
  rfl

/-- Writing only ever gives notes. -/
theorem mem_ownWrites {node : Node} {available : KeySet} {diagnostic : Diagnostic}
    (h : diagnostic ∈ (ownWrites node available).diagnostics) :
    ∃ key ∈ node.writes, diagnostic = overwrittenKey node.name key := by
  have noted (h : diagnostic ∈ (recordWrites node available).diagnostics) :
      ∃ key ∈ node.writes, diagnostic = overwrittenKey node.name key := by
    obtain ⟨key, mem, rfl⟩ := List.mem_map.1 h
    exact ⟨key, (List.mem_filter.1 mem).1, rfl⟩
  obtain ⟨name, contract, kind⟩ := node
  cases kind with
  | leaf | transform | tap | gate | transfer | capture | mapOver => exact noted h
  | _ => exact absurd h List.not_mem_nil

private theorem errors_ownWrites (node : Node) (available : KeySet) :
    Diagnostic.errors (ownWrites node available).diagnostics = [] := by
  refine List.filter_eq_nil_iff.2 fun diagnostic h => ?_
  obtain ⟨key, -, rfl⟩ := mem_ownWrites h
  change ¬ decide (DiagnosticLevel.error ≤ .info) = true
  decide

theorem diagnostics_pass (root : Node) (available : KeySet) :
    (pass root available).diagnostics =
      demandErrors root available ++ ((inside (root.kind.map pass) available).diagnostics ++
        (ownWrites root (inside (root.kind.map pass) available).available).diagnostics) := by
  rw [pass_eq]
  simp [step, inOrder]

/-- Whatever is no error says that a key is written again. -/
theorem overwritten_of_mem_pass {root : Node} {available : KeySet} {diagnostic : Diagnostic}
    (h : diagnostic ∈ (pass root available).diagnostics) (harmless : diagnostic.level ≠ .error) :
    ∃ node key, diagnostic = overwrittenKey node key := by
  induction root using Tree.induction generalizing available with
  | step root ih =>
    rw [diagnostics_pass, diagnostics_inside, List.mem_append, List.mem_append] at h
    rcases h with demanded | below | own
    · exact absurd (level_of_mem_demandErrors demanded) harmless
    · obtain ⟨⟨child, i⟩, hc, mem⟩ := List.mem_flatMap.1 below
      exact ih child (List.fst_mem_of_mem_zipIdx hc) mem
    · obtain ⟨key, -, rfl⟩ := mem_ownWrites own
      exact ⟨root.name, key, rfl⟩

/-- The errors are those of each step in turn, for the keys that are available when it begins. -/
theorem errors_pass (root : Node) (available : KeySet) :
    Diagnostic.errors (pass root available).diagnostics =
      root.occurrences.flatMap fun (place, step) =>
        demandErrors step (availableAt root available place) := by
  induction root using Tree.induction generalizing available with
  | step root ih =>
    have inner : Diagnostic.errors (inside (root.kind.map pass) available).diagnostics =
        root.children.zipIdx.flatMap fun (child, i) => child.occurrences.flatMap
          fun (place, step) => demandErrors step (availableAt root available (i :: place)) := by
      rw [diagnostics_inside, Diagnostic.errors, Diagnostic.atLeast, List.filter_flatMap]
      refine List.flatMap_congr fun (child, i) h => ?_
      have hc : root.children[i]? = some child := List.mem_zipIdx_iff_getElem?.1 h
      simp only [availableAt_cons hc]
      exact ih child (List.mem_of_getElem? hc) _
    rw [diagnostics_pass, errors_append, errors_append, errors_demandErrors, errors_ownWrites,
      inner, Tree.occurrences_eq, List.append_nil, List.flatMap_cons, List.flatMap_assoc]
    simp only [List.flatMap_map, availableAt_nil]

end Diagnostics

section Keys

variable {key : String} {children : List Node}

/-- A pass adds the same keys to whatever is available before it. -/
def Adds (pass : Pass) (adds : String → Prop) : Prop :=
  ∀ available key, key ∈ (pass available).available ↔ key ∈ available ∨ adds key

theorem mem_common {sets : List KeySet} :
    key ∈ common sets ↔ sets ≠ [] ∧ ∀ keys ∈ sets, key ∈ keys := by
  have fold (first : KeySet) (rest : List KeySet) :
      key ∈ rest.foldl (· ∩ ·) first ↔ key ∈ first ∧ ∀ keys ∈ rest, key ∈ keys := by
    induction rest generalizing first with
    | nil => simp
    | cons next rest ih => simp [ih, and_assoc]
  cases sets with
  | nil => simp [common]
  | cons first rest => simp [common, fold]

theorem adds_inOrder (h : ∀ child ∈ children, Adds (pass child) child.Ensures) :
    Adds (inOrder (children.map pass)) fun key => ∃ child ∈ children, child.Ensures key := by
  induction children with
  | nil => simp [Adds, inOrder]
  | cons child children ih =>
    intro available key
    have rest := ih fun other mem => h other (List.mem_cons_of_mem _ mem)
    simp only [List.map_cons, inOrder]
    rw [rest, h child List.mem_cons_self, or_assoc]
    simp

theorem adds_sideBySide (h : ∀ child ∈ children, Adds (pass child) child.Ensures) :
    Adds (sideBySide (children.map pass)) fun key => ∃ child ∈ children, child.Ensures key := by
  intro available key
  have branch : (∃ child ∈ children, key ∈ (pass child available).available) ↔
      ∃ child ∈ children, key ∈ available ∨ child.Ensures key :=
    exists_congr fun child => and_congr_right fun mem => h child mem available key
  simp only [sideBySide, KeySet.mem_union, KeySet.mem_unions, List.map_map, List.mem_map,
    Function.comp_apply, exists_exists_and_eq_and, branch]
  grind

theorem adds_oneOf (h : ∀ child ∈ children, Adds (pass child) child.Ensures) :
    Adds (oneOf (children.map pass)) fun key =>
      children ≠ [] ∧ ∀ child ∈ children, child.Ensures key := by
  intro available key
  have branch : (∀ child ∈ children, key ∈ (pass child available).available) ↔
      ∀ child ∈ children, key ∈ available ∨ child.Ensures key :=
    forall_congr' fun child => imp_congr_right fun mem => h child mem available key
  simp only [oneOf, KeySet.mem_union, mem_common, List.map_map, ne_eq, List.map_eq_nil_iff,
    List.forall_mem_map, Function.comp_apply, branch]
  grind

theorem available_pass (root : Node) (available : KeySet) :
    (pass root available).available =
      (inside (root.kind.map pass) available).available ∪ root.writes := by
  rw [pass_eq]
  obtain ⟨name, contract, kind⟩ := root
  cases kind <;> rfl

/-- After a step there is what was there before and what the step leaves on every choice. -/
theorem adds_pass (root : Node) : Adds (pass root) root.Ensures := by
  induction root using Tree.induction with
  | step root ih =>
    intro available key
    have whole {adds : Prop} (inner : key ∈ (inside (root.kind.map pass) available).available ↔
        key ∈ available ∨ adds) : key ∈ (pass root available).available ↔
          key ∈ available ∨ key ∈ root.writes ∨ adds := by
      rw [available_pass, KeySet.mem_union, inner, or_assoc, or_comm (b := key ∈ root.writes)]
    obtain ⟨name, contract, kind⟩ := root
    cases kind with
    | sequence children =>
      rw [Tree.ensures_of_all (by simp [Tree.kind, Kind.isExclusive]) rfl]
      exact whole (adds_inOrder ih available key)
    | parallel children =>
      rw [Tree.ensures_of_all (by simp [Tree.kind, Kind.isExclusive]) rfl]
      exact whole (adds_sideBySide ih available key)
    | fallback children | race children =>
      rw [Tree.ensures_of_exclusive rfl]
      exact whole (adds_oneOf ih available key)
    | route own rules otherwise =>
      rw [Tree.ensures_of_exclusive rfl]
      refine whole ?_
      change key ∈
        (oneOf (Kind.map pass (.route own rules otherwise)).children available).available ↔ _
      rw [Kind.children_map]
      exact adds_oneOf ih available key
    | loop body _ _ | timeout body _ =>
      rw [Tree.ensures_of_all (by simp [Tree.kind, Kind.isExclusive]) rfl]
      refine whole ((ih body (List.mem_singleton_self body) available key).trans ?_)
      simp [Tree.children, Tree.kind, Kind.children]
    | mapOver body listKey itemKey outputKey =>
      rw [Tree.ensures_of_perItem rfl]
      have kept : key ∈ (inside (Kind.map pass (.mapOver body listKey itemKey outputKey))
          available).available ↔ key ∈ available ∨ False := by
        simp [Kind.map, inside, perItem]
      exact (whole kept).trans (by simp)
    | leaf | transform | tap | gate | transfer | capture =>
      rw [Tree.ensures_of_all (by simp [Tree.kind, Kind.isExclusive]) rfl]
      refine whole ?_
      simp [Tree.children, Tree.kind, Kind.children, Kind.map, inside, inOrder]

theorem mem_entering {kind : Kind Node} {available : KeySet} {i : Nat} :
    key ∈ entering kind available i ↔
      key ∈ available ∨ kind.itemKey? = some key ∨
        kind.Earlier i fun _ sibling => sibling.Ensures key := by
  cases kind with
  | sequence children =>
    rw [entering, adds_inOrder fun child _ => adds_pass child]
    have earlier : (∃ child ∈ children.take i, child.Ensures key) ↔
        ∃ j < i, ∃ sibling, children[j]? = some sibling ∧ sibling.Ensures key := by
      constructor
      · intro h
        obtain ⟨child, mem, ensures⟩ := h
        obtain ⟨j, hj⟩ := List.mem_iff_getElem?.1 mem
        obtain ⟨lt, hj⟩ : j < i ∧ children[j]? = some child := by
          simpa [List.getElem?_take] using hj
        exact ⟨j, lt, child, hj, ensures⟩
      · intro h
        obtain ⟨j, lt, sibling, hj, ensures⟩ := h
        exact ⟨sibling, List.mem_iff_getElem?.2 ⟨j, by simpa [List.getElem?_take, lt] using hj⟩,
          ensures⟩
    simp [Kind.itemKey?, Kind.Earlier, earlier]
  | mapOver body listKey itemKey outputKey =>
    simp [entering, Kind.itemKey?, Kind.Earlier, or_comm, eq_comm]
  | _ => simp [entering, Kind.itemKey?, Kind.Earlier]

/-- If no earlier step of a sequence ensures a key, then some choice leads to a child, has no
earlier step leave the key, and is any given one inside of the child. -/
private theorem exists_choice_without {root child : Node} {i : Nat} {inner : Choice}
    (hc : root.children[i]? = some child) (complete : inner.Complete child)
    (unsure : ¬ root.kind.Earlier i fun _ sibling => sibling.Ensures key) :
    ∃ choice : Choice, choice.Complete root ∧ choice [] = some i ∧ choice.within [i] = inner ∧
      ¬ root.kind.Earlier i fun j sibling =>
        (choice.within [j]).Completes sibling fun _ step => key ∈ step.writes := by
  obtain ⟨choice, whole, first, parts⟩ := Choice.exists_complete (some i)
    (fun j sibling choice => (j = i → choice = inner) ∧
      ((∃ steps, root.kind = .sequence steps) → j < i →
        ¬ choice.Completes sibling fun _ step => key ∈ step.writes))
    (fun _ _ => ⟨i, (List.getElem?_eq_some_iff.1 hc).1, rfl⟩) (fun j sibling hs => by
      by_cases same : j = i
      · subst j
        obtain rfl : child = sibling := Option.some.inj (hc.symm.trans hs)
        exact ⟨inner, complete, fun _ => rfl, fun _ lt => absurd lt (Nat.lt_irrefl i)⟩
      by_cases earlier : (∃ steps, root.kind = .sequence steps) ∧ j < i
      · obtain ⟨⟨steps, kind⟩, lt⟩ := earlier
        rw [Tree.children_of_sequence kind] at hs
        obtain ⟨bad, complete, misses⟩ : ∃ bad : Choice, bad.Complete sibling ∧
            ¬ bad.Completes sibling fun _ step => key ∈ step.writes := by
          simpa [Tree.Ensures] using fun ensures =>
            unsure ⟨steps, kind, j, lt, sibling, hs, ensures⟩
        exact ⟨bad, complete, fun eq => absurd eq same, fun _ _ => misses⟩
      · exact ⟨_, Choice.complete_first sibling, fun eq => absurd eq same,
          fun sequence lt => absurd ⟨sequence, lt⟩ earlier⟩)
  refine ⟨choice, whole, first, (parts i child hc).1 rfl, ?_⟩
  intro h
  obtain ⟨steps, kind, j, lt, sibling, hs, completes⟩ := h
  have hs' : root.children[j]? = some sibling := by rwa [Tree.children_of_sequence kind]
  exact (parts j sibling hs').2 ⟨steps, kind⟩ lt completes

/-- A key is available at a place if it is available from the start, is the key of an item, or is
left by steps that are complete before on every choice that leads to the place. -/
theorem mem_availableAt {root step : Node} {available : KeySet} {place : Place}
    (h : root.at? place = some step) :
    key ∈ availableAt root available place ↔
      key ∈ available ∨ root.ItemAbove place key ∨
        ∀ choice : Choice, choice.Complete root → choice.Runs root place →
          choice.Before root place fun _ step => key ∈ step.writes := by
  induction place generalizing root available with
  | nil =>
    have never : ¬ ∀ choice : Choice, choice.Complete root → choice.Runs root [] →
        choice.Before root [] fun _ step => key ∈ step.writes := fun all =>
      Choice.not_before_nil (all _ (Choice.complete_first root) Choice.runs_nil)
    simp only [availableAt_nil, Tree.not_itemAbove_nil, never, or_false]
  | cons i place ih =>
    obtain ⟨child, hc, h⟩ := Tree.at?_cons_eq_some.1 h
    rw [availableAt_cons hc, ih h, mem_entering, Tree.itemAbove_cons hc]
    constructor
    · intro found
      rcases found with (mem | item | ⟨steps, kind, j, lt, sibling, hs, ensures⟩) | item | inner
      · exact .inl mem
      · exact .inr (.inl (.inl item))
      · refine .inr (.inr fun choice complete runs => ?_)
        refine (Choice.before_cons hc ((Choice.runs_cons hc).1 runs).1).2 (.inl ?_)
        have hs' : root.children[j]? = some sibling := by rwa [Tree.children_of_sequence kind]
        exact ⟨steps, kind, j, lt, sibling, hs,
          ensures _ (complete.inner hs')⟩
      · exact .inr (.inl (.inr item))
      · refine .inr (.inr fun choice complete runs => ?_)
        obtain ⟨here, runs⟩ := (Choice.runs_cons hc).1 runs
        exact (Choice.before_cons hc here).2 (.inr (inner _ (complete.inner hc) runs))
    · intro found
      rcases found with mem | (item | item) | all
      · exact .inl (.inl mem)
      · exact .inl (.inr (.inl item))
      · exact .inr (.inl item)
      · by_cases sure : root.kind.Earlier i fun _ sibling => sibling.Ensures key
        · exact .inl (.inr (.inr sure))
        refine .inr (.inr fun inner complete runs => ?_)
        obtain ⟨choice, whole, first, rfl, unsure⟩ := exists_choice_without hc complete sure
        have runs := (Choice.runs_cons hc).2 ⟨fun _ => first, runs⟩
        have before := (Choice.before_cons hc fun _ => first).1 (all choice whole runs)
        exact before.resolve_left unsure

end Keys

end Availability

end Workflow
