import Workflow.Proofs.Contract.Reaching

/-! Ledgers as views: what the writers and the live positions of a ledger say about places. -/
namespace Workflow

/-- Something comes after the child at a position, whatever comes after the step itself. -/
def Kind.GoesOnAfter {α : Type} (i : Nat) : Kind α → Prop
  | .parallel _ | .loop .. | .mapOver .. => True
  | .sequence steps => i + 1 < steps.length
  | _ => False

/-- Something comes after the step: it is, or lies in, a branch of a parallel step, the body of a
loop or of a step that runs once per item, or a step of a sequence other than the last. -/
def Tree.Followed (root : Node) (place : Place) : Prop :=
  ∃ above i rest group, place = above ++ i :: rest ∧ root.at? above = some group ∧
    group.kind.GoesOnAfter i

theorem Tree.followed_snoc {root group : Node} {place : Place} {i : Nat}
    (h : root.at? place = some group) :
    root.Followed (place ++ [i]) ↔ root.Followed place ∨ group.kind.GoesOnAfter i := by
  constructor
  · intro found
    obtain ⟨above, j, rest, outer, eq, at_, goes⟩ := found
    rcases rest.eq_nil_or_concat with rfl | ⟨rest, k, rfl⟩
    · obtain ⟨rfl, rfl⟩ : place = above ∧ i = j := by simpa using eq
      obtain rfl : group = outer := Option.some.inj (h.symm.trans at_)
      exact .inr goes
    · rw [List.concat_eq_append, ← List.cons_append, ← List.append_assoc] at eq
      obtain ⟨rfl, -⟩ := List.append_inj' eq rfl
      exact .inl ⟨above, j, rest, outer, rfl, at_, goes⟩
  · intro found
    rcases found with ⟨above, j, rest, outer, rfl, at_, goes⟩ | goes
    · exact ⟨above, j, rest ++ [i], outer, by simp, at_, goes⟩
    · exact ⟨place, i, [], group, rfl, h, goes⟩

theorem Tree.not_followed_nil (root : Node) : ¬ root.Followed [] := by
  intro h
  obtain ⟨above, i, rest, group, eq, -⟩ := h
  simp at eq

namespace Liveness

open Classical in
/-- The writer that stands for a step, given which steps have been used. -/
noncomputable def writerOf (root : Node) (used : Place → Prop) (entry : Place × Node) : Writer :=
  ⟨entry.2.name, entry.2.writes, !decide (root.Followed entry.1), decide (used entry.1)⟩

/-- The ledger has the entries as writers, and says of their places what the view does. -/
structure Represents (root : Node) (ledger : Ledger) (entries : List (Place × Node)) (view : View) :
    Prop where
  writers : ledger.writers = entries.map (writerOf root view.used)
  live : ∀ key i, i ∈ ledger.live.getD key [] ↔
    ∃ entry, entries[i]? = some entry ∧ view.live entry.1 key
  distinct : (entries.map (·.1)).Nodup
  known : ∀ place, view.used place ∨ (∃ key, view.live place key) → place ∈ entries.map (·.1)

section

variable {root : Node} {ledger : Ledger} {entries more : List (Place × Node)} {view : View}

theorem Represents.live_iff (h : Represents root ledger entries view) {key : String} {i : Nat}
    {entry : Place × Node} (at_ : entries[i]? = some entry) :
    i ∈ ledger.live.getD key [] ↔ view.live entry.1 key := by
  rw [h.live]
  constructor
  · intro found
    obtain ⟨other, eq, live⟩ := found
    obtain rfl : other = entry := Option.some.inj (eq.symm.trans at_)
    exact live
  · exact fun live => ⟨entry, at_, live⟩

/-- Marking positions adds the places of the entries there to the used ones. -/
theorem mark_map {positions : List Nat} {used used' : Place → Prop}
    (h : ∀ i entry, entries[i]? = some entry → (used' entry.1 ↔ used entry.1 ∨ i ∈ positions)) :
    mark positions (entries.map (writerOf root used)) = entries.map (writerOf root used') := by
  refine List.ext_getElem? fun i => ?_
  simp only [mark, List.getElem?_mapIdx, List.getElem?_map]
  cases at_ : entries[i]? with
  | none => rfl
  | some entry =>
    have same := h i entry at_
    by_cases marked : i ∈ positions
    · simp [writerOf, same, marked]
    · simp [writerOf, same, marked]

theorem represents_consume (h : Represents root ledger entries view) (key : String) :
    Represents root (consume ledger key) entries
      { view with used := fun place => view.used place ∨ view.live place key } where
  writers := by
    rw [consume, h.writers]
    exact mark_map fun i entry at_ => or_congr_right (h.live_iff at_).symm
  live := h.live
  distinct := h.distinct
  known := by
    intro place found
    rcases found with (used | live) | live
    · exact h.known place (.inl used)
    · exact h.known place (.inr ⟨key, live⟩)
    · exact h.known place (.inr live)

theorem represents_asks (place : Place) (step : Node) (h : Represents root ledger entries view) :
    Represents root (consumeAll step.demand ledger) entries
      (view.after (.only [.asks place step])) := by
  have each (keys : List String) (ledger : Ledger) (view : View)
      (h : Represents root ledger entries view) :
      Represents root (keys.foldl consume ledger) entries
        { view with used := fun place => view.used place ∨ ∃ key ∈ keys, view.live place key } := by
    induction keys generalizing ledger view with
    | nil => simpa using h
    | cons key keys ih => simpa [or_assoc] using ih _ _ (represents_consume h key)
  rw [after_asks]
  exact each _ ledger view h

/-- The entry of a step, if it writes anything. -/
def entryOf (place : Place) (step : Node) : List (Place × Node) :=
  if step.writes.isEmpty then [] else [(place, step)]

theorem getD_foldl_insert (keys : KeySet) (value : List Nat) (live : KeyMap (List Nat))
    (key : String) :
    (keys.toList.foldl (fun live key => live.insert key value) live).getD key [] =
      if key ∈ keys then value else live.getD key [] := by
  show _ = if key ∈ keys.toList then value else live.getD key []
  induction keys.toList generalizing live with
  | nil => simp
  | cons first keys ih =>
    rw [List.foldl_cons, ih]
    by_cases eq : key = first <;> simp [KeyMap.getD, eq]

theorem Represents.length_writers (h : Represents root ledger entries view) :
    ledger.writers.length = entries.length := by
  rw [h.writers, List.length_map]

theorem Represents.not_used (h : Represents root ledger entries view) {place : Place}
    (fresh : place ∉ entries.map (·.1)) : ¬ view.used place :=
  fun used => fresh (h.known place (.inl used))

theorem Represents.not_live (h : Represents root ledger entries view) {place : Place}
    (fresh : place ∉ entries.map (·.1)) (key : String) : ¬ view.live place key :=
  fun live => fresh (h.known place (.inr ⟨key, live⟩))

/-- Positions of old entries stay as they are when new ones come after them. -/
theorem exists_getElem?_append {p : Place → Prop} (absent : ∀ entry ∈ more, ¬ p entry.1) (i : Nat) :
    (∃ entry, (entries ++ more)[i]? = some entry ∧ p entry.1) ↔
      ∃ entry, entries[i]? = some entry ∧ p entry.1 := by
  refine exists_congr fun entry => and_congr_left fun holds => ?_
  rw [List.getElem?_append]
  split
  · rfl
  · have none : entries[i]? = none := by
      rw [List.getElem?_eq_none_iff]
      omega
    rw [none]
    exact ⟨fun new => absurd holds (absent entry (List.mem_of_getElem? new)), nofun⟩

/-- A new entry stands at the position after the old ones, and nowhere else. -/
theorem exists_getElem?_snoc {place : Place} (fresh : place ∉ entries.map (·.1)) (step : Node)
    (i : Nat) :
    (∃ entry, (entries ++ [(place, step)])[i]? = some entry ∧ entry.1 = place) ↔
      i = entries.length := by
  constructor
  · intro h
    obtain ⟨entry, at_, rfl⟩ := h
    rcases Nat.lt_or_ge i entries.length with old | new
    · rw [List.getElem?_append_left old] at at_
      exact absurd (List.mem_map_of_mem (List.mem_of_getElem? at_)) fresh
    · have bound := (List.getElem?_eq_some_iff.1 at_).1
      rw [List.length_append, List.length_singleton] at bound
      omega
  · intro eq
    subst eq
    exact ⟨(place, step), by simp, rfl⟩

theorem represents_writes {place : Place} {step : Node} {terminal : Bool}
    (h : Represents root ledger entries view) (fresh : place ∉ entries.map (·.1))
    (last : terminal = true ↔ ¬ root.Followed place) :
    Represents root (record step terminal ledger) (entries ++ entryOf place step)
      (view.after (.only [.writes place step])) := by
  rw [after_writes]
  by_cases empty : step.writes.isEmpty = true
  · have nothing (key : String) : key ∉ step.writes := by
      rw [KeySet.mem_def, List.isEmpty_iff.1 empty]
      exact List.not_mem_nil
    simpa [record, entryOf, empty, nothing] using h
  · have own : writerOf root view.used (place, step) =
        ⟨step.name, step.writes, terminal, false⟩ := by
      have unused := h.not_used fresh
      cases terminal <;> simp_all [writerOf]
    rw [record, if_neg empty, entryOf, if_neg empty]
    exact {
      writers := by rw [List.map_append, h.writers, List.map_singleton, own]
      live := by
        intro key i
        rw [getD_foldl_insert]
        by_cases mem : key ∈ step.writes
        · simp only [mem, if_true]
          rw [exists_getElem?_snoc fresh, h.length_writers, List.mem_singleton]
        · simp only [mem, if_false]
          rw [exists_getElem?_append (p := fun place => view.live place key), h.live]
          intro entry new
          obtain rfl := List.mem_singleton.1 new
          exact h.not_live fresh key
      distinct := by
        rw [List.map_append, List.nodup_append]
        refine ⟨h.distinct, by simp, fun old mem new mem' => ?_⟩
        obtain rfl : new = place := by simpa using mem'
        exact fun eq => fresh (eq ▸ mem)
      known := by
        intro other found
        rw [List.map_append, List.mem_append]
        rcases found with used | ⟨key, live⟩
        · exact .inl (h.known other (.inl used))
        · by_cases mem : key ∈ step.writes
          · simp only [mem, if_true] at live
            exact .inr (by simp [live])
          · simp only [mem, if_false] at live
            exact .inl (h.known other (.inr ⟨key, live⟩)) }

/-- A branch starts with the writers of those before it, and with the values that the first one
finds. -/
theorem Represents.restart {now : Ledger} {current : View}
    (h : Represents root ledger entries view)
    (h' : Represents root now (entries ++ more) current) :
    Represents root { now with live := ledger.live } (entries ++ more)
      { current with live := view.live } where
  writers := h'.writers
  live := by
    intro key i
    rw [exists_getElem?_append (p := fun place => view.live place key), h.live]
    intro entry new
    refine h.not_live (fun old => ?_) key
    have distinct := h'.distinct
    rw [List.map_append, List.nodup_append] at distinct
    exact distinct.2.2 _ old _ (List.mem_map_of_mem new) rfl
  distinct := h'.distinct
  known := by
    intro place found
    rcases found with used | live
    · exact h'.known place (.inl used)
    · rw [List.map_append, List.mem_append]
      exact .inl (h.known place (.inr live))

theorem Represents.clear (h : Represents root ledger entries view) :
    Represents root { ledger with live := ∅ } entries { view with live := fun _ _ => False } where
  writers := h.writers
  live := by simp [KeyMap.getD]
  distinct := h.distinct
  known := by
    intro place found
    rcases found with used | ⟨key, live⟩
    · exact h.known place (.inl used)
    · exact live.elim

theorem mem_addPositions {positions new : List Nat} {i : Nat} :
    i ∈ addPositions positions new ↔ i ∈ positions ∨ i ∈ new := by
  unfold addPositions
  induction new generalizing positions with
  | nil => simp
  | cons first rest ih =>
    have one : i ∈ (if positions.contains first then positions else positions ++ [first]) ↔
        i ∈ positions ∨ i = first := by
      by_cases mem : first ∈ positions
      · simp only [List.contains_iff_mem, mem, if_true]
        exact ⟨.inl, fun h => h.elim id fun eq => eq ▸ mem⟩
      · simp [mem]
    rw [List.foldl_cons, ih, one, List.mem_cons, or_assoc]

theorem mem_getD (live : KeyMap (List Nat)) {key : String} {i : Nat} :
    i ∈ live.getD key [] ↔ ∃ positions, (key, positions) ∈ live.toList ∧ i ∈ positions := by
  simp only [KeyMap.mem_toList_iff, KeyMap.getD]
  cases live.get? key with
  | none => simp
  | some positions => simp

theorem mem_unite {left right : KeyMap (List Nat)} {key : String} {i : Nat} :
    i ∈ (unite left right).getD key [] ↔ i ∈ left.getD key [] ∨ i ∈ right.getD key [] := by
  rw [mem_getD right, unite]
  induction right.toList generalizing left with
  | nil => simp
  | cons entry rest ih =>
    obtain ⟨name, positions⟩ := entry
    have first : i ∈ (left.insert name (addPositions (left.getD name []) positions)).getD key [] ↔
        i ∈ left.getD key [] ∨ key = name ∧ i ∈ positions := by
      by_cases eq : key = name
      · subst eq
        simp [KeyMap.getD, mem_addPositions]
      · simp [KeyMap.getD, eq]
    rw [List.foldl_cons, ih, first]
    simp [or_and_right, exists_or, or_assoc]

theorem Represents.unite {before now : Ledger} {past current : View}
    (h : Represents root before entries past)
    (h' : Represents root now (entries ++ more) current) :
    Represents root { now with live := unite before.live now.live } (entries ++ more)
      { current with live := fun place key => past.live place key ∨ current.live place key } := by
  have earlier := h.restart h'
  exact {
    writers := h'.writers
    live := by
      intro key i
      rw [mem_unite, earlier.live, h'.live]
      simp only [and_or_left, exists_or]
    distinct := h'.distinct
    known := by
      intro place found
      rcases found with used | ⟨key, live | live⟩
      · exact h'.known place (.inl used)
      · exact earlier.known place (.inr ⟨key, live⟩)
      · exact h'.known place (.inr ⟨key, live⟩) }

theorem mem_values {live : KeyMap (List Nat)} {i : Nat} :
    i ∈ live.values.flatten ↔ ∃ key, i ∈ live.getD key [] := by
  simp only [mem_getD, KeyMap.values, List.mem_flatten, List.mem_map]
  constructor
  · intro h
    obtain ⟨positions, ⟨⟨key, _⟩, mem, rfl⟩, found⟩ := h
    exact ⟨key, _, mem, found⟩
  · intro h
    obtain ⟨key, positions, mem, found⟩ := h
    exact ⟨positions, ⟨(key, positions), mem, rfl⟩, found⟩

/-- The results of an item use what its body has left, that is, the new entries that are live. -/
theorem Represents.collect {now : Ledger} {current : View} {place : Place}
    (h : Represents root ledger entries view) (h' : Represents root now (entries ++ more) current)
    (outside : ∀ entry ∈ entries, ¬ place <+: entry.1)
    (below : ∀ entry ∈ more, ∃ i rest, entry.1 = place ++ i :: rest) :
    Represents root
      { writers := mark (now.live.values.flatten.filter fun i => ledger.writers.length ≤ i)
          now.writers
        live := ledger.live }
      (entries ++ more)
      { live := view.live
        used := fun q => current.used q ∨
          (∃ i rest, q = place ++ i :: rest) ∧ ∃ key, current.live q key } := by
  have again := h.restart h'
  -- The positions from the first new writer on are those of the steps below the place.
  have new {i : Nat} {entry : Place × Node} (at_ : (entries ++ more)[i]? = some entry) :
      entries.length ≤ i ↔ ∃ j rest, entry.1 = place ++ j :: rest := by
    rcases Nat.lt_or_ge i entries.length with old | new
    · rw [List.getElem?_append_left old] at at_
      refine iff_of_false (by omega) fun ⟨j, rest, eq⟩ => ?_
      exact outside entry (List.mem_of_getElem? at_) ⟨j :: rest, eq.symm⟩
    · rw [List.getElem?_append_right new] at at_
      exact iff_of_true new (below entry (List.mem_of_getElem? at_))
  exact {
    writers := by
      simp only [h'.writers]
      refine mark_map fun i entry at_ => or_congr_right ?_
      rw [List.mem_filter, mem_values, h.length_writers, decide_eq_true_eq, new at_, and_comm]
      simp only [h'.live_iff at_]
    live := again.live
    distinct := again.distinct
    known := by
      intro q found
      rcases found with (used | ⟨-, live⟩) | live
      · exact h'.known q (.inl used)
      · exact h'.known q (.inr live)
      · exact again.known q (.inr live) }

end

end Liveness

end Workflow
