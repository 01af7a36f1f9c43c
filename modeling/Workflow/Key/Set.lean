/-! Finite sets of keys, listed in ascending order. -/
namespace Workflow

/-- A set is determined by its members: see `KeySet.ext_mem`. -/
structure KeySet where
  toList : List String
  sorted : toList.Pairwise (· < ·)
deriving DecidableEq

namespace KeySet

instance : Membership String KeySet := ⟨fun keys key => key ∈ keys.toList⟩

instance (key : String) (keys : KeySet) : Decidable (key ∈ keys) :=
  inferInstanceAs (Decidable (key ∈ keys.toList))

/-- Puts a key where the order wants it, unless it is there. -/
def insertKey (key : String) : List String → List String
  | [] => [key]
  | first :: rest =>
    if key < first then key :: first :: rest
    else if key = first then first :: rest
    else first :: insertKey key rest

@[simp] theorem mem_insertKey {key other : String} {keys : List String} :
    other ∈ insertKey key keys ↔ other = key ∨ other ∈ keys := by
  induction keys <;> grind [insertKey]

theorem sorted_insertKey (key : String) {keys : List String} (h : keys.Pairwise (· < ·)) :
    (insertKey key keys).Pairwise (· < ·) := by
  induction keys with
  | nil => simp [insertKey]
  | cons first rest ih =>
    obtain ⟨hd, tl⟩ := List.pairwise_cons.1 h
    unfold insertKey
    split
    · refine List.pairwise_cons.2 ⟨fun other mem => ?_, h⟩
      rcases List.mem_cons.1 mem with rfl | mem
      · assumption
      · exact String.lt_trans (by assumption) (hd other mem)
    · split
      · exact h
      · refine List.pairwise_cons.2 ⟨fun other mem => ?_, ih tl⟩
        rcases mem_insertKey.1 mem with rfl | mem
        · grind
        · exact hd other mem

def empty : KeySet := ⟨[], .nil⟩

instance : EmptyCollection KeySet := ⟨empty⟩

instance : Inhabited KeySet := ⟨empty⟩

def insert (keys : KeySet) (key : String) : KeySet :=
  ⟨insertKey key keys.toList, sorted_insertKey key keys.sorted⟩

def insertAll (keys : KeySet) (more : List String) : KeySet :=
  more.foldl insert keys

def ofList (keys : List String) : KeySet :=
  insertAll ∅ keys

def singleton (key : String) : KeySet :=
  ⟨[key], List.pairwise_singleton _ _⟩

def filter (keep : String → Bool) (keys : KeySet) : KeySet :=
  ⟨keys.toList.filter keep, keys.sorted.filter _⟩

def erase (keys : KeySet) (key : String) : KeySet :=
  keys.filter (· != key)

def contains (keys : KeySet) (key : String) : Bool :=
  keys.toList.contains key

instance : Union KeySet := ⟨fun left right => left.insertAll right.toList⟩

instance : Inter KeySet := ⟨fun left right => left.filter right.contains⟩

def isEmpty (keys : KeySet) : Bool :=
  keys.toList.isEmpty

/-- The union of a list of sets. -/
def unions (sets : List KeySet) : KeySet :=
  sets.foldr (· ∪ ·) ∅

theorem mem_def {key : String} {keys : KeySet} : key ∈ keys ↔ key ∈ keys.toList := Iff.rfl

@[simp] theorem not_mem_empty (key : String) : key ∉ (∅ : KeySet) := List.not_mem_nil

@[simp] theorem mem_insert {keys : KeySet} {key other : String} :
    other ∈ keys.insert key ↔ other = key ∨ other ∈ keys :=
  mem_insertKey

@[simp] theorem mem_insertAll {keys : KeySet} {more : List String} {key : String} :
    key ∈ keys.insertAll more ↔ key ∈ more ∨ key ∈ keys := by
  induction more generalizing keys with
  | nil => simp [insertAll]
  | cons first rest ih =>
    have : keys.insertAll (first :: rest) = (keys.insert first).insertAll rest := rfl
    rw [this, ih, mem_insert, List.mem_cons]
    grind

@[simp] theorem mem_ofList {keys : List String} {key : String} : key ∈ ofList keys ↔ key ∈ keys := by
  simp [ofList]

@[simp] theorem mem_singleton {key other : String} : other ∈ singleton key ↔ other = key :=
  List.mem_singleton

@[simp] theorem mem_filter {keep : String → Bool} {keys : KeySet} {key : String} :
    key ∈ keys.filter keep ↔ key ∈ keys ∧ keep key = true :=
  List.mem_filter

@[simp] theorem mem_erase {keys : KeySet} {key other : String} :
    other ∈ keys.erase key ↔ other ∈ keys ∧ other ≠ key := by
  simp [erase]

@[simp] theorem contains_iff {keys : KeySet} {key : String} :
    keys.contains key = true ↔ key ∈ keys :=
  List.contains_iff_mem

@[simp] theorem mem_union {left right : KeySet} {key : String} :
    key ∈ left ∪ right ↔ key ∈ left ∨ key ∈ right := by
  rw [show (left ∪ right) = left.insertAll right.toList from rfl, mem_insertAll, mem_def, mem_def]
  exact Or.comm

@[simp] theorem mem_inter {left right : KeySet} {key : String} :
    key ∈ left ∩ right ↔ key ∈ left ∧ key ∈ right := by
  rw [show (left ∩ right) = left.filter right.contains from rfl, mem_filter, contains_iff]

@[simp] theorem mem_unions {sets : List KeySet} {key : String} :
    key ∈ unions sets ↔ ∃ keys ∈ sets, key ∈ keys := by
  induction sets with
  | nil => simp [unions]
  | cons first rest ih =>
    rw [show unions (first :: rest) = first ∪ unions rest from rfl, mem_union, ih]
    simp

theorem eq_of_mem_iff {left right : List String} (hl : left.Pairwise (· < ·))
    (hr : right.Pairwise (· < ·)) (h : ∀ key, key ∈ left ↔ key ∈ right) : left = right := by
  induction left generalizing right with
  | nil =>
    cases right with
    | nil => rfl
    | cons first _ => exact absurd ((h first).2 List.mem_cons_self) List.not_mem_nil
  | cons first rest ih =>
    cases right with
    | nil => exact absurd ((h first).1 List.mem_cons_self) List.not_mem_nil
    | cons other others =>
      obtain ⟨hd, tl⟩ := List.pairwise_cons.1 hl
      obtain ⟨hd', tl'⟩ := List.pairwise_cons.1 hr
      have same : first = other := by
        rcases List.mem_cons.1 ((h first).1 List.mem_cons_self) with eq | mem
        · exact eq
        · rcases List.mem_cons.1 ((h other).2 List.mem_cons_self) with eq | mem'
          · exact eq.symm
          · exact absurd (String.lt_trans (hd _ mem') (hd' _ mem)) (String.lt_irrefl _)
      subst same
      congr 1
      refine ih tl tl' fun key => ⟨fun mem => ?_, fun mem => ?_⟩
      · rcases List.mem_cons.1 ((h key).1 (List.mem_cons_of_mem _ mem)) with eq | mem'
        · exact absurd (eq ▸ hd key mem) (String.lt_irrefl _)
        · exact mem'
      · rcases List.mem_cons.1 ((h key).2 (List.mem_cons_of_mem _ mem)) with eq | mem'
        · exact absurd (eq ▸ hd' key mem) (String.lt_irrefl _)
        · exact mem'

@[ext] theorem ext_mem {left right : KeySet} (h : ∀ key, key ∈ left ↔ key ∈ right) :
    left = right := by
  obtain ⟨left, hl⟩ := left
  obtain ⟨right, hr⟩ := right
  congr
  exact eq_of_mem_iff hl hr h

end KeySet

end Workflow
