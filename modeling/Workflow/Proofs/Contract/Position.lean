import Workflow.Proofs.Contract.Ledger

/-!
Positions of writers in a ledger: those that are live for a key stand for different writers of the key,
whatever is used, recorded, put back or united.
-/
namespace Workflow.Liveness

/-- Every live position of a key has a writer, who writes the key, and none is there twice. -/
structure Ledger.Sound (ledger : Ledger) : Prop where
  writes : ∀ key, ∀ i ∈ ledger.live.getD key [],
    ∃ writer, ledger.writers[i]? = some writer ∧ key ∈ writer.keys
  distinct : ∀ key, (ledger.live.getD key []).Nodup

def Writer.use (writer : Writer) : Writer :=
  { writer with consumed := true }

/-- Writers keep their positions, and what has been used stays so. -/
def Grows (before after : List Writer) : Prop :=
  ∀ (i : Nat) (writer : Writer), before[i]? = some writer →
    after[i]? = some writer ∨ after[i]? = some writer.use

/-- Marks one writer after another, and fails at a position without a writer. -/
def mark? (positions : List Nat) (writers : List Writer) : Option (List Writer) :=
  positions.foldlM (fun writers i => writers[i]?.map fun writer => writers.set i writer.use) writers

theorem mark_nil (writers : List Writer) : mark [] writers = writers :=
  List.ext_getElem? fun i => by simp [mark]

theorem getElem?_mark (positions : List Nat) (writers : List Writer) (i : Nat) :
    (mark positions writers)[i]? =
      writers[i]?.map fun writer => if i ∈ positions then writer.use else writer := by
  simp [mark, List.getElem?_mapIdx, Writer.use]

theorem mark_cons {i : Nat} {writers : List Writer} {writer : Writer}
    (h : writers[i]? = some writer) (positions : List Nat) :
    mark positions (writers.set i writer.use) = mark (i :: positions) writers := by
  refine List.ext_getElem? fun j => ?_
  rw [getElem?_mark, getElem?_mark, List.getElem?_set]
  obtain ⟨bound, rfl⟩ := List.getElem?_eq_some_iff.1 h
  by_cases same : i = j
  · subst same
    simp [bound, Writer.use]
  · simp [same, Ne.symm same]

theorem mark?_eq_some {positions : List Nat} {writers : List Writer}
    (h : ∀ i ∈ positions, i < writers.length) :
    mark? positions writers = some (mark positions writers) := by
  induction positions generalizing writers with
  | nil => rw [mark_nil]; rfl
  | cons i positions ih =>
    have bound : i < writers.length := h i List.mem_cons_self
    have at_ : writers[i]? = some writers[i] := List.getElem?_eq_getElem bound
    have others : ∀ j ∈ positions, j < (writers.set i writers[i].use).length := by
      intro j mem
      rw [List.length_set]
      exact h j (.tail i mem)
    rw [← mark_cons at_, ← ih others, mark?, List.foldlM_cons, at_]
    rfl

theorem mark_mark (positions more : List Nat) (writers : List Writer) :
    mark more (mark positions writers) = mark (positions ++ more) writers := by
  refine List.ext_getElem? fun i => ?_
  simp only [getElem?_mark, Option.map_map, List.mem_append]
  refine Option.map_congr fun writer _ => ?_
  by_cases first : i ∈ positions <;> by_cases second : i ∈ more <;>
    simp [first, second, Writer.use]

theorem mark_congr {positions others : List Nat} (h : ∀ i, i ∈ positions ↔ i ∈ others)
    (writers : List Writer) : mark positions writers = mark others writers :=
  List.ext_getElem? fun i => by simp only [getElem?_mark, h]

theorem consumeAll_eq (keys : KeySet) (ledger : Ledger) :
    consumeAll keys ledger =
      { ledger with
        writers := mark (keys.toList.flatMap fun key => ledger.live.getD key []) ledger.writers } := by
  unfold consumeAll
  induction keys.toList generalizing ledger with
  | nil => rw [List.flatMap_nil, mark_nil]; rfl
  | cons key keys ih =>
    rw [List.foldl_cons, ih, consume, mark_mark, List.flatMap_cons]

/-- It does not matter which of its keys a step uses first. -/
theorem consumeAll_erase {keys : KeySet} {key : String} (mem : key ∈ keys) (ledger : Ledger) :
    consumeAll (keys.erase key) (consume ledger key) = consumeAll keys ledger := by
  have same : ∀ i,
      i ∈ ledger.live.getD key [] ++
          (keys.erase key).toList.flatMap (fun other => ledger.live.getD other []) ↔
        i ∈ keys.toList.flatMap fun other => ledger.live.getD other [] := by
    intro i
    rw [List.mem_append, List.mem_flatMap, List.mem_flatMap]
    constructor
    · rintro (own | ⟨other, there, live⟩)
      · exact ⟨key, mem, own⟩
      · exact ⟨other, (KeySet.mem_erase.1 there).1, live⟩
    · rintro ⟨other, there, live⟩
      by_cases eq : other = key
      · exact .inl (eq ▸ live)
      · exact .inr ⟨other, KeySet.mem_erase.2 ⟨there, eq⟩, live⟩
  rw [consumeAll_eq, consumeAll_eq, consume, mark_mark, mark_congr same]

theorem Grows.refl (writers : List Writer) : Grows writers writers :=
  fun _ _ at_ => .inl at_

theorem Grows.trans {first second third : List Writer} (h : Grows first second)
    (h' : Grows second third) : Grows first third := by
  intro i writer at_
  rcases h i writer at_ with same | used
  · exact h' i writer same
  · exact .inr ((h' i writer.use used).elim id id)

theorem grows_mark (positions : List Nat) (writers : List Writer) :
    Grows writers (mark positions writers) := by
  intro i writer at_
  rw [getElem?_mark, at_, Option.map_some]
  split
  · exact .inr rfl
  · exact .inl rfl

theorem grows_append (writers more : List Writer) : Grows writers (writers ++ more) :=
  fun _ _ at_ => .inl (List.getElem?_append_left (List.getElem?_eq_some_iff.1 at_).1 ▸ at_)

section

variable {ledger : Ledger} {writers : List Writer} {left right : KeyMap (List Nat)}

theorem Ledger.Sound.lt_length (h : ledger.Sound) {key : String} {i : Nat}
    (mem : i ∈ ledger.live.getD key []) : i < ledger.writers.length := by
  obtain ⟨writer, at_, -⟩ := h.writes key i mem
  exact (List.getElem?_eq_some_iff.1 at_).1

theorem sound_nothingLive (writers : List Writer) : (Ledger.mk writers ∅).Sound where
  writes := by simp [KeyMap.getD]
  distinct := by simp [KeyMap.getD]

/-- Live positions may be kept while writers come and are used, and put back afterwards. -/
theorem Ledger.Sound.grow (h : ledger.Sound) (grows : Grows ledger.writers writers) :
    (Ledger.mk writers ledger.live).Sound where
  writes := by
    intro key i mem
    obtain ⟨writer, at_, writes⟩ := h.writes key i mem
    rcases grows i writer at_ with same | used
    · exact ⟨writer, same, writes⟩
    · exact ⟨writer.use, used, writes⟩
  distinct := h.distinct

theorem nodup_addPositions {positions : List Nat} (h : positions.Nodup) (more : List Nat) :
    (addPositions positions more).Nodup := by
  unfold addPositions
  induction more generalizing positions with
  | nil => exact h
  | cons i more ih =>
    rw [List.foldl_cons]
    refine ih ?_
    by_cases there : i ∈ positions
    · simpa [there] using h
    · simpa [there, List.nodup_append] using ⟨h, fun j mem eq => there (eq ▸ mem)⟩

theorem nodup_unite (h : ∀ key, (left.getD key []).Nodup) (key : String) :
    ((unite left right).getD key []).Nodup := by
  unfold unite
  induction right.toList generalizing left with
  | nil => exact h key
  | cons entry rest ih =>
    rw [List.foldl_cons]
    refine ih fun other => ?_
    by_cases eq : other = entry.1
    · subst eq
      simpa [KeyMap.getD] using nodup_addPositions (h entry.1) entry.2
    · simpa [KeyMap.getD, eq] using h other

theorem sound_unite (h : (Ledger.mk writers left).Sound) (h' : (Ledger.mk writers right).Sound) :
    (Ledger.mk writers (unite left right)).Sound where
  writes := fun key i mem => (mem_unite.1 mem).elim (h.writes key i) (h'.writes key i)
  distinct := nodup_unite h.distinct

theorem grows_record (node : Node) (terminal : Bool) (ledger : Ledger) :
    Grows ledger.writers (record node terminal ledger).writers := by
  unfold record
  split
  · exact Grows.refl ledger.writers
  · exact grows_append ledger.writers _

/-- A new writer is put behind the others, and its position is live for its own keys only. -/
theorem Ledger.Sound.record (h : ledger.Sound) (node : Node) (terminal : Bool) :
    (record node terminal ledger).Sound := by
  unfold Liveness.record
  split
  · exact h
  · have older := h.grow (grows_append ledger.writers [⟨node.name, node.writes, terminal, false⟩])
    exact {
      writes := by
        intro key i mem
        rw [getD_foldl_insert] at mem
        split at mem
        · next own =>
          obtain rfl := List.mem_singleton.1 mem
          exact ⟨_, List.getElem?_concat_length, own⟩
        · exact older.writes key i mem
      distinct := by
        intro key
        rw [getD_foldl_insert]
        split
        · simp
        · exact h.distinct key }

end

end Workflow.Liveness
