import Workflow.Proofs.Contract.Ledger

/-! The pass over a tree records what reaches the end of its forward paths. -/
namespace Workflow

namespace Liveness

theorem pass_eq (step : Node) : pass step = Liveness.step step (step.kind.map pass) :=
  Tree.fold_eq _ _

/-- The writers at and below a place, in the order in which they are recorded. -/
def writersAt (place : Place) (step : Node) : List (Place × Node) :=
  (step.completions.filter fun entry => isWriter entry.2.kind && !entry.2.writes.isEmpty).map
    fun entry => (place ++ entry.1, entry.2)

/-- The writers below steps at the positions from a given one on. -/
def writersBelow (place : Place) (i : Nat) (steps : List Node) : List (Place × Node) :=
  (steps.zipIdx i).flatMap fun (step, i) => writersAt (place ++ [i]) step

@[simp] theorem writersBelow_nil (place : Place) (i : Nat) : writersBelow place i [] = [] := rfl

@[simp] theorem writersBelow_cons (place : Place) (i : Nat) (step : Node) (rest : List Node) :
    writersBelow place i (step :: rest) =
      writersAt (place ++ [i]) step ++ writersBelow place (i + 1) rest := rfl

theorem writersAt_eq (place : Place) (step : Node) :
    writersAt place step =
      writersBelow place 0 step.children ++
        if isWriter step.kind then entryOf place step else [] := by
  have own : ([([], step)].filter fun entry : Place × Node =>
      isWriter entry.2.kind && !entry.2.writes.isEmpty).map
        (fun entry => (place ++ entry.1, entry.2)) =
      if isWriter step.kind then entryOf place step else [] := by
    cases writer : isWriter step.kind <;> cases empty : step.writes.isEmpty <;>
      simp [entryOf, writer, empty]
  rw [writersAt, Tree.completions_eq, List.filter_append, List.map_append, own]
  simp [writersBelow, writersAt, List.filter_flatMap, List.map_flatMap, List.filter_map,
    Function.comp_def]

theorem prefix_of_mem_writersAt {place : Place} {step : Node} {entry : Place × Node}
    (h : entry ∈ writersAt place step) : place <+: entry.1 := by
  obtain ⟨inner, -, rfl⟩ := List.mem_map.1 h
  exact List.prefix_append place inner.1

theorem below_of_mem_writersBelow {place : Place} {i : Nat} {steps : List Node}
    {entry : Place × Node} (h : entry ∈ writersBelow place i steps) :
    ∃ j rest, entry.1 = place ++ j :: rest := by
  obtain ⟨⟨step, j⟩, -, mem⟩ := List.mem_flatMap.1 h
  obtain ⟨rest, eq⟩ := prefix_of_mem_writersAt mem
  exact ⟨j, rest, by simp [← eq]⟩

/-- A step that goes through a ledger turns what it represents into what reaches the end of the
step. -/
def Tracks (root : Node) (place : Place) (step : Node) : Prop :=
  ∀ after ledger entries view, (after = true ↔ root.Followed place) →
    (∀ entry ∈ entries, ¬ place <+: entry.1) → Represents root ledger entries view →
    Represents root (pass step after ledger) (entries ++ writersAt place step)
      (view.after (Forward place step))

section

variable {root : Node} {place : Place}

/-- No writer so far is at or below the positions from a given one on. -/
def Fresh (place : Place) (i : Nat) (entries : List (Place × Node)) : Prop :=
  ∀ entry ∈ entries, ∀ j, i ≤ j → ¬ place ++ [j] <+: entry.1

theorem fresh_of_outside {entries : List (Place × Node)}
    (h : ∀ entry ∈ entries, ¬ place <+: entry.1) (i : Nat) : Fresh place i entries :=
  fun entry mem j _ inside => h entry mem ((List.prefix_append place [j]).trans inside)

theorem Fresh.append {i : Nat} {entries : List (Place × Node)} (h : Fresh place i entries)
    (step : Node) : Fresh place (i + 1) (entries ++ writersAt (place ++ [i]) step) := by
  intro entry mem j le inside
  rcases List.mem_append.1 mem with old | new
  · exact h entry old j (by omega) inside
  · have same := List.prefix_of_prefix_length_le inside (prefix_of_mem_writersAt new) (by simp)
    have : j = i := by simpa using same.eq_of_length (by simp)
    omega

theorem represents_inOrder {steps : List Node} {i : Nat} {after : Bool} {ledger : Ledger}
    {entries : List (Place × Node)} {view : View}
    (tracks : ∀ j step, steps[j]? = some step → Tracks root (place ++ [i + j]) step)
    (followed : ∀ j < steps.length,
      (root.Followed (place ++ [i + j]) ↔ after = true ∨ j + 1 < steps.length))
    (fresh : Fresh place i entries) (h : Represents root ledger entries view) :
    Represents root (inOrder (steps.map pass) after ledger) (entries ++ writersBelow place i steps)
      (view.after (InTurn place i steps)) := by
  induction steps generalizing i ledger entries view with
  | nil =>
    rw [inTurn_nil, after_only_nil]
    simpa [inOrder] using h
  | cons step rest ih =>
    have first := tracks 0 step rfl
    have last := followed 0 (by simp)
    rw [inTurn_cons, after_andThen (exists_forward _ step) (exists_inTurn _ _ rest),
      writersBelow_cons, ← List.append_assoc]
    -- The last step hands on what comes after the whole; all others have the next step after them.
    cases rest with
    | nil =>
      rw [inTurn_nil, after_only_nil, writersBelow_nil, List.append_nil]
      exact first after ledger entries view (by simpa using last.symm)
        (fun entry mem => fresh entry mem i (Nat.le_refl i)) h
    | cons next rest =>
      refine ih (fun j other at_ => ?_) (fun j lt => ?_) (fresh.append step) ?_
      · rw [Nat.add_right_comm]
        exact tracks (j + 1) other at_
      · rw [Nat.add_right_comm, Nat.add_assoc]
        simpa using followed (j + 1) (by simpa using lt)
      · exact first true ledger entries view (by simpa using last.symm)
          (fun entry mem => fresh entry mem i (Nat.le_refl i)) h

/-- One more branch, from the live values at the start; what it leaves is added to what the ones
before it have left. -/
def addBranch (start : Ledger) (after : Bool) (merged : Ledger) (branch : Pass) : Ledger :=
  let result := branch after { writers := merged.writers, live := start.live }
  { writers := result.writers, live := unite merged.live result.live }

theorem represents_addBranches {steps : List Node} {i : Nat} {after : Bool} {start merged : Ledger}
    {entries more : List (Place × Node)} {view past : View}
    (tracks : ∀ j step, steps[j]? = some step → Tracks root (place ++ [i + j]) step)
    (followed : ∀ j < steps.length, (after = true ↔ root.Followed (place ++ [i + j])))
    (fresh : Fresh place i (entries ++ more)) (h : Represents root start entries view)
    (sofar : Represents root merged (entries ++ more) past) :
    Represents root ((steps.map pass).foldl (addBranch start after) merged)
      (entries ++ more ++ writersBelow place i steps)
      { live := fun q key => past.live q key ∨
          (View.after { view with used := past.used } (.oneOf place i steps)).live q key
        used := (View.after { view with used := past.used } (.oneOf place i steps)).used } := by
  induction steps generalizing i merged more past with
  | nil =>
    rw [after_oneOf_nil]
    simpa using sofar
  | cons step rest ih =>
    -- The writers of the branches before are known, but their values are not there.
    have branch := tracks 0 step rfl after _ _ _ (followed 0 (by simp))
      (fun entry mem => fresh entry mem i (Nat.le_refl i)) (h.restart sofar)
    have merged := sofar.unite branch
    rw [List.append_assoc] at merged
    rw [List.map_cons, List.foldl_cons, writersBelow_cons, after_oneOf_cons rfl rfl,
      ← List.append_assoc, List.append_assoc entries]
    simp only [← or_assoc]
    refine ih (fun j other at_ => ?_) (fun j lt => ?_) ?_ merged
    · rw [Nat.add_right_comm]
      exact tracks (j + 1) other at_
    · rw [Nat.add_right_comm]
      exact followed (j + 1) (by simpa using lt)
    · rw [← List.append_assoc]
      exact fresh.append step

theorem represents_branches {steps : List Node} {after : Bool} {ledger : Ledger}
    {entries : List (Place × Node)} {view : View} (nonempty : steps ≠ [])
    (tracks : ∀ j step, steps[j]? = some step → Tracks root (place ++ [j]) step)
    (followed : ∀ j < steps.length, (after = true ↔ root.Followed (place ++ [j])))
    (outside : ∀ entry ∈ entries, ¬ place <+: entry.1) (h : Represents root ledger entries view) :
    Represents root (branches (steps.map pass) after ledger)
      (entries ++ writersBelow place 0 steps) (view.after (.oneOf place 0 steps)) := by
  have fold : branches (steps.map pass) after ledger =
      (steps.map pass).foldl (addBranch ledger after) { ledger with live := ∅ } := by
    rw [branches, if_neg (by simpa using nonempty)]
    rfl
  have none : Represents root { ledger with live := ∅ } (entries ++ [])
      { view with live := fun _ _ => False } := by
    simpa using h.clear
  have all := represents_addBranches (i := 0) (by simpa using tracks) (by simpa using followed)
    (by simpa using fresh_of_outside outside 0) h none
  rw [fold]
  simpa using all

/-- What a step does to a ledger, from what happens inside the step. -/
theorem tracks_of_inside {step : Node} {below : Paths} (inner : View → View)
    (forward : Forward place step = (Paths.only [.asks place step]).andThen below)
    (goes : ∃ path, below path true)
    (inside_ : ∀ after ledger entries view, (after = true ↔ root.Followed place) →
      (∀ entry ∈ entries, ¬ place <+: entry.1) → Represents root ledger entries view →
      Represents root (inside (step.kind.map pass) after ledger)
        (entries ++ writersBelow place 0 step.children) (inner view))
    (own : ∀ view : View, view.after below =
      if isWriter step.kind then (inner view).after (.only [.writes place step]) else inner view) :
    Tracks root place step := by
  intro after ledger entries view followed outside h
  have within := inside_ after _ entries _ followed outside (represents_asks place step h)
  rw [pass_eq, Liveness.step, writersAt_eq, forward, after_andThen ⟨_, rfl, rfl⟩ goes, own,
    ← List.append_assoc]
  by_cases writer : isWriter step.kind = true
  · simp only [if_pos writer]
    refine represents_writes within ?_ (by cases after <;> simp_all)
    -- The step itself is not yet among the writers, which are outside of it or below it.
    intro mem
    obtain ⟨entry, among, eq⟩ := List.mem_map.1 mem
    rcases List.mem_append.1 among with old | new
    · exact outside entry old (eq ▸ List.prefix_rfl)
    · obtain ⟨j, rest, under⟩ := below_of_mem_writersBelow new
      simp [eq] at under
  · simp only [if_neg writer, List.append_nil]
    exact within

variable {step : Node}

theorem followed_child {always : Bool} (at_ : root.at? place = some step)
    (goesOn : ∀ i, step.kind.GoesOnAfter i ↔ always = true) {after : Bool}
    (followed : after = true ↔ root.Followed place) (i : Nat) :
    (after || always) = true ↔ root.Followed (place ++ [i]) := by
  rw [Tree.followed_snoc at_, goesOn, ← followed, Bool.or_eq_true]

theorem tracks_branches (always : Bool) (at_ : root.at? place = some step)
    (one : takesOne step.kind) (writer : isWriter step.kind = false)
    (branching : ∀ after, inside (step.kind.map pass) after =
      branches (step.children.map pass) (after || always))
    (goesOn : ∀ i, step.kind.GoesOnAfter i ↔ always = true)
    (tracks : ∀ j child, step.children[j]? = some child → Tracks root (place ++ [j]) child) :
    Tracks root place step := by
  by_cases empty : step.children = []
  · refine tracks_of_inside (fun view => view) (forward_empty one empty) ⟨[], rfl, rfl⟩ ?_ ?_
    · intro after ledger entries view _ _ h
      rw [branching, empty]
      simpa [branches] using h
    · intro view
      rw [after_only_nil, writer]
      rfl
  · refine tracks_of_inside (fun view => view.after (.oneOf place 0 step.children))
      (forward_one one empty) ?_ ?_ ?_
    · obtain ⟨child, hc⟩ := List.exists_mem_of_ne_nil _ empty
      obtain ⟨i, at_⟩ := List.getElem?_of_mem hc
      obtain ⟨path, h⟩ := exists_forward (place ++ [0 + i]) child
      exact ⟨path, i, child, at_, h⟩
    · intro after ledger entries view followed outside h
      rw [branching]
      exact represents_branches empty tracks (fun i _ => followed_child at_ goesOn followed i)
        outside h
    · intro view
      rw [writer]
      rfl

theorem tracks_body {body : Node} (always : Bool) (at_ : root.at? place = some step)
    (one : takesOne step.kind) (writer : isWriter step.kind = false)
    (children : step.children = [body])
    (once : ∀ after, inside (step.kind.map pass) after = pass body (after || always))
    (goesOn : ∀ i, step.kind.GoesOnAfter i ↔ always = true)
    (tracks : ∀ j child, step.children[j]? = some child → Tracks root (place ++ [j]) child) :
    Tracks root place step := by
  have forward : Forward place step =
      (Paths.only [.asks place step]).andThen (.oneOf place 0 [body]) := by
    rw [← children]
    exact forward_one one (by simp [children])
  refine tracks_of_inside (fun view => view.after (.oneOf place 0 [body])) forward ?_ ?_ ?_
  · obtain ⟨path, h⟩ := exists_forward (place ++ [0]) body
    exact ⟨path, 0, body, rfl, h⟩
  · intro after ledger entries view followed outside h
    rw [once, children, writersBelow_cons, writersBelow_nil, List.append_nil,
      after_oneOf_cons rfl rfl, after_oneOf_nil]
    have fresh := fresh_of_outside outside 0
    simpa using tracks 0 body (by simp [children]) _ ledger entries view
      (followed_child at_ goesOn followed 0) (fun entry mem => fresh entry mem 0 (Nat.le_refl 0)) h
  · intro view
    rw [writer]
    rfl

theorem tracks_plain (writer : isWriter step.kind) (plain : step.children = [])
    (nothing : ∀ after ledger, inside (step.kind.map pass) after ledger = ledger) :
    Tracks root place step := by
  refine tracks_of_inside (fun view => view) (forward_plain writer plain) ⟨_, rfl, rfl⟩ ?_ ?_
  · intro after ledger entries view _ _ h
    rw [nothing, plain]
    simpa using h
  · intro view
    rw [if_pos writer]

theorem tracks_sequence {steps : List Node} (at_ : root.at? place = some step)
    (kind : step.kind = .sequence steps)
    (tracks : ∀ j child, step.children[j]? = some child → Tracks root (place ++ [j]) child) :
    Tracks root place step := by
  have children : step.children = steps := Tree.children_of_sequence kind
  rw [children] at tracks
  refine tracks_of_inside (fun view => view.after (InTurn place 0 steps)) (forward_sequence kind)
    (exists_inTurn place 0 steps) ?_ ?_
  · intro after ledger entries view followed outside h
    rw [kind, children]
    refine represents_inOrder (by simpa using tracks) (fun j _ => ?_) (fresh_of_outside outside 0) h
    rw [Tree.followed_snoc at_, kind, Nat.zero_add, followed]
    rfl
  · intro view
    rw [kind]
    rfl

theorem tracks_perItem {body : Node} {listKey itemKey outputKey : String}
    (at_ : root.at? place = some step) (kind : step.kind = .mapOver body listKey itemKey outputKey)
    (tracks : Tracks root (place ++ [0]) body) : Tracks root place step := by
  have children : step.children = [body] := by
    rw [Tree.children, kind]
    rfl
  refine tracks_of_inside (fun view => view.collected place (Forward (place ++ [0]) body))
    (forward_perItem kind) ⟨_, .inl ⟨rfl, rfl⟩⟩ ?_ ?_
  · intro after ledger entries view followed outside h
    rw [kind, children, writersBelow_cons, writersBelow_nil, List.append_nil]
    have fresh := fresh_of_outside outside 0
    have goesOn : root.Followed (place ++ [0]) :=
      (Tree.followed_snoc at_).2 (.inr (by rw [kind]; trivial))
    have item := tracks true ledger entries view (by simpa using goesOn)
      (fun entry mem => fresh entry mem 0 (Nat.le_refl 0)) h
    refine h.collect item outside fun entry mem => ?_
    obtain ⟨rest, eq⟩ := prefix_of_mem_writersAt mem
    exact ⟨0, rest, by simp [← eq]⟩
  · intro view
    rw [kind]
    exact after_perItem

/-- The whole pass keeps to the forward paths. -/
theorem tracks {root step : Node} {place : Place} (at_ : root.at? place = some step) :
    Tracks root place step := by
  induction step using Tree.induction generalizing place with
  | step step ih =>
    have below (j : Nat) (child : Node) (hc : step.children[j]? = some child) :
        Tracks root (place ++ [j]) child :=
      ih child (List.mem_of_getElem? hc) ((Tree.at?_snoc at_).trans hc)
    have children : step.children = step.kind.children := rfl
    have mapped : step.children.map pass = (step.kind.map pass).children :=
      (Kind.children_map pass step.kind).symm
    cases kind : step.kind with
    | leaf | transform | tap | gate | transfer | capture =>
      rw [kind] at children
      exact tracks_plain (by simp [kind, isWriter]) children (by simp [kind, Kind.map, inside])
    | sequence steps => exact tracks_sequence at_ kind below
    | mapOver body =>
      rw [kind] at children
      exact tracks_perItem at_ kind (below 0 body (by rw [children]; rfl))
    | loop body =>
      rw [kind] at children
      exact tracks_body true at_ (by simp [kind, takesOne]) (by simp [kind, isWriter]) children
        (by simp [kind, Kind.map, inside]) (by simp [kind, Kind.GoesOnAfter]) below
    | timeout body =>
      rw [kind] at children
      exact tracks_body false at_ (by simp [kind, takesOne]) (by simp [kind, isWriter]) children
        (by simp [kind, Kind.map, inside]) (by simp [kind, Kind.GoesOnAfter]) below
    | parallel =>
      exact tracks_branches true at_ (by simp [kind, takesOne]) (by simp [kind, isWriter])
        (by simp [mapped, kind, Kind.map, inside, Kind.children])
        (by simp [kind, Kind.GoesOnAfter]) below
    | fallback | race | route =>
      exact tracks_branches false at_ (by simp [kind, takesOne]) (by simp [kind, isWriter])
        (by simp [mapped, kind, Kind.map, inside, Kind.children])
        (by simp [kind, Kind.GoesOnAfter]) below

end

end Liveness

end Workflow
