/-! The lines of a text that is written line by line. -/
namespace Workflow.Text

/-- A character that does not separate comes from one of the texts that are joined. -/
theorem mem_intercalate {c : Char} {separator : String} (apart : c ∉ separator.toList)
    {texts : List String} :
    c ∈ (separator.intercalate texts).toList ↔ ∃ text ∈ texts, c ∈ text.toList := by
  induction texts with
  | nil => simp
  | cons first texts ih =>
    cases texts with
    | nil => simp
    | cons second texts =>
      rw [String.intercalate_cons_cons, String.toList_append, String.toList_append, List.mem_append,
        List.mem_append, ih, or_iff_left apart]
      simp only [List.mem_cons, exists_eq_or_imp]

/-- What stands between the line breaks. Behind a break at the end there is one more line, without
anything in it. -/
def lines (text : String) : List String :=
  (text.toList.splitOn '\n').map String.ofList

/-- Every text with a line break behind it. -/
def unlines (texts : List String) : String :=
  String.join (texts.map (· ++ "\n"))

@[simp] theorem unlines_nil : unlines [] = "" := rfl

theorem unlines_cons (text : String) (texts : List String) :
    unlines (text :: texts) = text ++ "\n" ++ unlines texts := by
  rw [unlines, List.map_cons, String.join_cons, unlines]

theorem unlines_append (first second : List String) :
    unlines (first ++ second) = unlines first ++ unlines second := by
  rw [unlines, List.map_append, String.join_append, unlines, unlines]

theorem join_map_eq_unlines {α : Type} {line text : α → String}
    (h : ∀ item, line item = text item ++ "\n") (items : List α) :
    String.join (items.map line) = unlines (items.map text) := by
  rw [unlines, List.map_map]
  exact congrArg String.join (List.map_congr_left fun item _ => h item)

theorem lines_append_break (text rest : String) :
    lines (text ++ "\n" ++ rest) = lines text ++ lines rest := by
  have split : (text ++ "\n" ++ rest).toList = text.toList ++ '\n' :: rest.toList := by
    simp [String.toList_append]
  rw [lines, split, List.splitOn_append_cons_self, List.map_append]
  rfl

theorem lines_eq_singleton {text : String} (h : '\n' ∉ text.toList) : lines text = [text] := by
  rw [lines, List.splitOn_eq_singleton h, List.map_singleton, String.ofList_toList]

theorem length_splitOn {α : Type} [BEq α] (mark : α) (items : List α) :
    (items.splitOn mark).length = items.count mark + 1 := by
  induction items with
  | nil => rfl
  | cons item items ih =>
    rw [List.splitOn_cons_eq_if_modifyHead, List.count_cons]
    split
    · rw [List.length_cons, ih]
    · rw [List.length_modifyHead, ih]

theorem length_lines (text : String) : (lines text).length = text.toList.count '\n' + 1 := by
  rw [lines, List.length_map, length_splitOn]

theorem lines_unlines {texts : List String} (h : ∀ text ∈ texts, '\n' ∉ text.toList) :
    lines (unlines texts) = texts ++ [""] := by
  induction texts with
  | nil => rfl
  | cons text texts ih =>
    obtain ⟨first, rest⟩ := List.forall_mem_cons.1 h
    rw [unlines_cons, lines_append_break, lines_eq_singleton first, ih rest]
    rfl

/-- Each text takes one line, and one more for each break inside of it. -/
theorem length_lines_unlines (texts : List String) :
    (lines (unlines texts)).length =
      texts.length + (texts.flatMap String.toList).count '\n' + 1 := by
  induction texts with
  | nil => rfl
  | cons text texts ih =>
    rw [unlines_cons, lines_append_break, List.length_append, length_lines, ih, List.length_cons,
      List.flatMap_cons, List.count_append]
    omega

theorem length_lines_unlines_iff {texts : List String} :
    (lines (unlines texts)).length = texts.length + 1 ↔ ∀ text ∈ texts, '\n' ∉ text.toList := by
  have none_broken : (texts.flatMap String.toList).count '\n' = 0 ↔
      ∀ text ∈ texts, '\n' ∉ text.toList := by
    rw [List.count_eq_zero, List.mem_flatMap]
    exact not_exists.trans (forall_congr' fun text => not_and)
  rw [length_lines_unlines, ← none_broken]
  omega

/-- The texts are the lines if and only if none of them has a break inside. -/
theorem lines_unlines_iff {texts : List String} :
    lines (unlines texts) = texts ++ [""] ↔ ∀ text ∈ texts, '\n' ∉ text.toList := by
  refine ⟨fun same => length_lines_unlines_iff.1 ?_, lines_unlines⟩
  rw [same, List.length_append, List.length_singleton]

end Workflow.Text
