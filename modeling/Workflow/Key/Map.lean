/-! Finite maps from keys to values, listed in ascending order of the keys. -/
namespace Workflow

/-- A map is determined by what it holds at each key: see `KeyMap.ext_get?`. -/
structure KeyMap (α : Type) where
  toList : List (String × α)
  sorted : toList.Pairwise fun entry next => entry.1 < next.1
deriving DecidableEq

namespace KeyMap

variable {α β : Type}

/-- Replaces the value of a key, or puts the key where the order wants it. -/
def insertEntry (key : String) (value : α) : List (String × α) → List (String × α)
  | [] => [(key, value)]
  | entry :: rest =>
    if key < entry.1 then (key, value) :: entry :: rest
    else if key = entry.1 then (key, value) :: rest
    else entry :: insertEntry key value rest

theorem mem_insertEntry {key : String} {value : α} {entry : String × α}
    {entries : List (String × α)} (h : entry ∈ insertEntry key value entries) :
    entry = (key, value) ∨ entry ∈ entries := by
  induction entries <;> grind [insertEntry]

theorem sorted_insertEntry (key : String) (value : α) {entries : List (String × α)}
    (h : entries.Pairwise fun entry next => entry.1 < next.1) :
    (insertEntry key value entries).Pairwise fun entry next => entry.1 < next.1 := by
  induction entries with
  | nil => simp [insertEntry]
  | cons entry rest ih =>
    obtain ⟨hd, tl⟩ := List.pairwise_cons.1 h
    unfold insertEntry
    split
    · refine List.pairwise_cons.2 ⟨fun other mem => ?_, h⟩
      rcases List.mem_cons.1 mem with rfl | mem
      · assumption
      · exact String.lt_trans (by assumption) (hd other mem)
    · split
      · exact List.pairwise_cons.2 ⟨fun other mem => by subst key; exact hd other mem, tl⟩
      · refine List.pairwise_cons.2 ⟨fun other mem => ?_, ih tl⟩
        rcases mem_insertEntry mem with rfl | mem
        · grind
        · exact hd other mem

def empty : KeyMap α := ⟨[], .nil⟩

instance : EmptyCollection (KeyMap α) := ⟨empty⟩

instance : Inhabited (KeyMap α) := ⟨empty⟩

def insert (map : KeyMap α) (key : String) (value : α) : KeyMap α :=
  ⟨insertEntry key value map.toList, sorted_insertEntry key value map.sorted⟩

def erase (map : KeyMap α) (key : String) : KeyMap α :=
  ⟨map.toList.filter (·.1 != key), map.sorted.filter _⟩

def get? (map : KeyMap α) (key : String) : Option α :=
  map.toList.lookup key

def contains (map : KeyMap α) (key : String) : Bool :=
  (map.get? key).isSome

def getD (map : KeyMap α) (key : String) (fallback : α) : α :=
  (map.get? key).getD fallback

/-- Later pairs replace earlier ones of the same key. -/
def ofList (pairs : List (String × α)) : KeyMap α :=
  pairs.foldl (fun map pair => map.insert pair.1 pair.2) ∅

def isEmpty (map : KeyMap α) : Bool :=
  map.toList.isEmpty

def size (map : KeyMap α) : Nat :=
  map.toList.length

def keys (map : KeyMap α) : List String :=
  map.toList.map (·.1)

def values (map : KeyMap α) : List α :=
  map.toList.map (·.2)

/-- Every entry of the second map written over the first. -/
def overwrite (map newer : KeyMap α) : KeyMap α :=
  newer.toList.foldl (fun result entry => result.insert entry.1 entry.2) map

@[simp] theorem get?_empty (key : String) : (∅ : KeyMap α).get? key = none := rfl

theorem lookup_cons_eq (key : String) (entry : String × α) (rest : List (String × α)) :
    (entry :: rest).lookup key = if key = entry.1 then some entry.2 else rest.lookup key := by
  obtain ⟨name, held⟩ := entry
  rw [List.lookup_cons]
  by_cases h : key = name <;> simp [h, beq_eq_false_iff_ne.2]

theorem lookup_insertEntry (key other : String) (value : α) (entries : List (String × α)) :
    (insertEntry key value entries).lookup other =
      if other = key then some value else entries.lookup other := by
  induction entries with
  | nil => simp [insertEntry, lookup_cons_eq]
  | cons entry rest ih =>
    unfold insertEntry
    split <;> (try split) <;> grind [lookup_cons_eq]

@[simp] theorem get?_insert (map : KeyMap α) (key other : String) (value : α) :
    (map.insert key value).get? other = if other = key then some value else map.get? other :=
  lookup_insertEntry key other value map.toList

theorem lookup_filter_ne (key other : String) (entries : List (String × α)) :
    (entries.filter (·.1 != key)).lookup other =
      if other = key then none else entries.lookup other := by
  induction entries with
  | nil => simp
  | cons entry rest ih =>
    by_cases h : entry.1 = key <;> grind [lookup_cons_eq]

@[simp] theorem get?_erase (map : KeyMap α) (key other : String) :
    (map.erase key).get? other = if other = key then none else map.get? other :=
  lookup_filter_ne key other map.toList

theorem mem_of_lookup {entries : List (String × α)} {key : String} {value : α}
    (h : entries.lookup key = some value) : (key, value) ∈ entries := by
  induction entries with
  | nil => simp at h
  | cons entry rest ih => grind [lookup_cons_eq]

theorem lookup_of_mem {entries : List (String × α)} {key : String} {value : α}
    (sorted : entries.Pairwise fun entry next => entry.1 < next.1)
    (h : (key, value) ∈ entries) : entries.lookup key = some value := by
  induction entries with
  | nil => simp at h
  | cons entry rest ih =>
    obtain ⟨hd, tl⟩ := List.pairwise_cons.1 sorted
    rw [lookup_cons_eq]
    rcases List.mem_cons.1 h with rfl | mem
    · simp
    · have ne : key ≠ entry.1 := fun eq => String.lt_irrefl _ (eq ▸ hd _ mem)
      simp [ne, ih tl mem]

/-- Where all keys are greater, the key is absent. -/
theorem lookup_eq_none_of_lt {entries : List (String × α)} {key : String}
    (later : ∀ next ∈ entries, key < next.1) : entries.lookup key = none := by
  cases found : entries.lookup key with
  | none => rfl
  | some value => exact absurd (later _ (mem_of_lookup found)) (String.lt_irrefl _)

theorem mem_toList_iff {map : KeyMap α} {key : String} {value : α} :
    (key, value) ∈ map.toList ↔ map.get? key = some value :=
  ⟨lookup_of_mem map.sorted, mem_of_lookup⟩

theorem mem_keys {map : KeyMap α} {key : String} :
    key ∈ map.keys ↔ ∃ value, map.get? key = some value := by
  simp only [keys, List.mem_map, Prod.exists, mem_toList_iff, exists_and_right, exists_eq_right]

/-- What is written over a map hides what is below it. -/
theorem get?_overwrite (map newer : KeyMap α) (key : String) :
    (map.overwrite newer).get? key = (newer.get? key).or (map.get? key) := by
  obtain ⟨entries, sorted⟩ := newer
  change (entries.foldl (fun map entry => map.insert entry.1 entry.2) map).get? key =
    (entries.lookup key).or (map.get? key)
  induction entries generalizing map with
  | nil => rfl
  | cons entry rest ih =>
    obtain ⟨later, sorted⟩ := List.pairwise_cons.1 sorted
    rw [List.foldl_cons, ih _ sorted, get?_insert, lookup_cons_eq]
    by_cases eq : key = entry.1
    · subst eq
      simp [lookup_eq_none_of_lt later]
    · simp [eq]

theorem eq_of_lookup_eq {left right : List (String × α)}
    (hl : left.Pairwise fun entry next => entry.1 < next.1)
    (hr : right.Pairwise fun entry next => entry.1 < next.1)
    (h : ∀ key, left.lookup key = right.lookup key) : left = right := by
  induction left generalizing right with
  | nil =>
    cases right with
    | nil => rfl
    | cons entry rest => have := h entry.1; simp [lookup_cons_eq] at this
  | cons entry rest ih =>
    cases right with
    | nil => have := h entry.1; simp [lookup_cons_eq] at this
    | cons other others =>
      obtain ⟨hd, tl⟩ := List.pairwise_cons.1 hl
      obtain ⟨hd', tl'⟩ := List.pairwise_cons.1 hr
      have same : entry = other := by
        have first := mem_of_lookup ((h entry.1).symm.trans (by simp [lookup_cons_eq]; rfl))
        have second := mem_of_lookup ((h other.1).trans (by simp [lookup_cons_eq]; rfl))
        rcases List.mem_cons.1 first with eq | mem
        · exact eq
        · rcases List.mem_cons.1 second with eq | mem'
          · exact eq.symm
          · exact absurd (String.lt_trans (hd _ mem') (hd' _ mem)) (String.lt_irrefl _)
      subst same
      congr 1
      refine ih tl tl' fun key => ?_
      by_cases eq : key = entry.1
      · subst eq
        rw [lookup_eq_none_of_lt hd, lookup_eq_none_of_lt hd']
      · have := h key
        simpa [lookup_cons_eq, eq] using this

@[ext] theorem ext_get? {left right : KeyMap α} (h : ∀ key, left.get? key = right.get? key) :
    left = right := by
  obtain ⟨left, hl⟩ := left
  obtain ⟨right, hr⟩ := right
  congr
  exact eq_of_lookup_eq hl hr h

@[simp] theorem contains_iff {map : KeyMap α} {key : String} :
    map.contains key = true ↔ ∃ value, map.get? key = some value :=
  Option.isSome_iff_exists

end KeyMap

end Workflow
