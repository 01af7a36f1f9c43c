import Mathlib.Data.List.Basic
import Workflow.Proofs.Text.Lines
import Workflow.Tree.Path

/-! Paths as text: a separator that is no digit keeps the positions apart, so that they can be read
off again. -/
namespace Workflow.Path

theorem repr_injective : Function.Injective Nat.repr := by
  intro i j same
  have digits : Nat.toDigits 10 i = Nat.toDigits 10 j := by
    rw [← Nat.toList_repr, ← Nat.toList_repr, same]
  have read := congrArg (Nat.ofDigitChars 10 · 0) digits
  simpa only [Nat.ofDigitChars_ten_toDigits] using read

theorem not_mem_repr {mark : Char} (plain : mark.isDigit = false) (i : Nat) :
    mark ∉ i.repr.toList := by
  intro mem
  rw [Nat.toList_repr] at mem
  have digit := Nat.isDigit_of_mem_toDigits (by decide) (by decide) mem
  rw [plain] at digit
  contradiction

theorem text_cons_cons (separator : String) (i j : Nat) (path : Path) :
    Path.text separator (i :: j :: path) =
      i.repr ++ separator ++ Path.text separator (j :: path) :=
  String.intercalate_cons_cons

/-- The first position stands alone, every other one behind a separator. -/
theorem text_cons (separator : String) (i : Nat) (path : Path) :
    Path.text separator (i :: path) =
      i.repr ++ String.join (path.map fun j => separator ++ j.repr) := by
  induction path generalizing i with
  | nil => simp [text, String.join]
  | cons j path ih =>
    rw [text_cons_cons, ih, List.map_cons, String.join_cons]
    simp only [String.append_assoc]

theorem text_child (separator : String) (i j : Nat) (path : Path) :
    (Path.child (i :: path) j).text separator =
      Path.text separator (i :: path) ++ separator ++ j.repr := by
  rw [child, List.cons_append, text_cons, text_cons, List.map_append, String.join_append]
  simp [String.append_assoc]

/-- A path is written with digits and separators only. -/
theorem not_mem_text {mark : Char} {separator : String} (plain : mark.isDigit = false)
    (apart : mark ∉ separator.toList) (path : Path) : mark ∉ (path.text separator).toList := by
  rw [text, Text.mem_intercalate apart]
  intro found
  obtain ⟨digits, mem, within⟩ := found
  obtain ⟨i, -, rfl⟩ := List.mem_map.1 mem
  exact not_mem_repr plain i within

section Separator

variable {separator : String} {mark : Char}

/-- What stands between two separators are the digits of a position. -/
theorem splitOn_text (alone : separator.toList = [mark]) (plain : mark.isDigit = false)
    {path : Path} (ne : path ≠ []) :
    (path.text separator).toList.splitOn mark = path.map fun i => i.repr.toList := by
  have apart : ∀ digits ∈ path.map fun i => i.repr.toList, mark ∉ digits := by
    intro digits mem
    obtain ⟨i, -, rfl⟩ := List.mem_map.1 mem
    exact not_mem_repr plain i
  rw [text, String.toList_intercalate, alone, List.map_map]
  exact List.splitOn_intercalate mark apart (by simpa using ne)

theorem eq_of_text_eq (alone : separator.toList = [mark]) (plain : mark.isDigit = false)
    {left right : Path} (left_ne : left ≠ []) (right_ne : right ≠ [])
    (same : left.text separator = right.text separator) : left = right := by
  have digits : left.map (fun i => i.repr.toList) = right.map fun i => i.repr.toList := by
    rw [← splitOn_text alone plain left_ne, same, splitOn_text alone plain right_ne]
  have injective : Function.Injective fun i : Nat => i.repr.toList :=
    fun _ _ same => repr_injective (String.toList_inj.1 same)
  exact List.map_injective_iff.2 injective digits

/-- One separator for each position but the first. -/
theorem count_text (alone : separator.toList = [mark]) (plain : mark.isDigit = false)
    (i : Nat) (path : Path) :
    (Path.text separator (i :: path)).toList.count mark = path.length := by
  have digits (i : Nat) : i.repr.toList.count mark = 0 :=
    List.count_eq_zero.2 (not_mem_repr plain i)
  induction path generalizing i with
  | nil => simpa [text] using digits i
  | cons j path ih =>
    simp only [text_cons_cons, String.toList_append, List.count_append, digits, alone, ih,
      List.count_singleton_self, List.length_cons]
    omega

/-- With another separator in the place of each one it is still the same path. -/
theorem map_text {other : String} {sign : Char} (alone : separator.toList = [mark])
    (plain : mark.isDigit = false) (other_alone : other.toList = [sign]) (path : Path) :
    (path.text separator).map (fun char => if char = mark then sign else char) =
      path.text other := by
  have digits (i : Nat) :
      (i.repr.toList.map fun char => if char = mark then sign else char) = i.repr.toList := by
    refine (List.map_congr_left fun char mem => if_neg ?_).trans (List.map_id' _)
    intro same
    exact not_mem_repr plain i (same ▸ mem)
  rw [← String.toList_inj, String.toList_map]
  cases path with
  | nil => rfl
  | cons i path =>
    induction path generalizing i with
    | nil => simpa [text] using digits i
    | cons j path ih =>
      simp only [text_cons_cons, String.toList_append, List.map_append, digits, alone, other_alone,
        ih, List.map_cons, List.map_nil, if_true]

end Separator

end Workflow.Path
