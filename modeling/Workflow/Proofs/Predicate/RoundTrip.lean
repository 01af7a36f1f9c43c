import Workflow.Predicate.Printer
import Workflow.Proofs.Predicate.Parser

/-! Showing a predicate and reading it again. The reader takes what stands between quotation marks as it
is, while the printer escapes it; the predicate comes back if there was nothing to escape. -/
namespace Workflow

section escapes

variable {f : Char → List Char}

/-- A text whose characters are written one by one stays as it is only if each character does. -/
theorem flatMap_eq_self_iff (nonempty : ∀ c, f c ≠ []) {text : List Char} :
    text.flatMap f = text ↔ ∀ c ∈ text, f c = [c] := by
  have longer : ∀ rest : List Char, rest.length ≤ (rest.flatMap f).length := by
    intro rest
    induction rest with
    | nil => exact Nat.le_refl _
    | cons c rest ih =>
      have some := List.length_pos_of_ne_nil (nonempty c)
      simp only [List.flatMap_cons, List.length_append, List.length_cons]
      omega
  induction text with
  | nil => simp
  | cons c rest ih =>
    constructor
    · intro same
      obtain ⟨first, more, written⟩ := List.exists_cons_of_ne_nil (nonempty c)
      rw [List.flatMap_cons, written, List.cons_append] at same
      obtain ⟨rfl, following⟩ := List.cons.inj same
      have short : more = [] := by
        have lengths := congrArg List.length following
        have least := longer rest
        rw [List.length_append] at lengths
        exact List.length_eq_zero_iff.1 (by omega)
      subst short
      exact List.forall_mem_cons.2 ⟨written, ih.1 following⟩
    · intro each
      obtain ⟨first, others⟩ := List.forall_mem_cons.1 each
      rw [List.flatMap_cons, first, ih.2 others, List.singleton_append]

theorem Json.escapeChar_eq_self_iff {c : Char} :
    escapeChar c = [c] ↔ c ≠ '"' ∧ c ≠ '\\' ∧ ' ' ≤ c := by
  constructor
  · intro same
    obtain ⟨mark, -, eq⟩ | ⟨-, eq⟩ | ⟨plain, -⟩ := Token.escapeChar_cases c
    · simp [eq] at same
    · simp [eq, controlEscape] at same
    · exact plain
  · rintro ⟨quotation, backslash, visible⟩
    have shown {d : Char} (control : d < ' ') : c ≠ d := fun eq =>
      Char.not_le.2 control (eq ▸ visible)
    have kept : ¬ c < ' ' := Char.not_lt.2 visible
    simp [escapeChar, quotation, backslash, kept, shown (d := '\x08') (by decide),
      shown (d := '\t') (by decide), shown (d := '\n') (by decide), shown (d := '\x0c') (by decide),
      shown (d := '\r') (by decide)]

theorem Text.quotedChar_ne_nil (c : Char) : quotedChar c ≠ [] := by
  unfold quotedChar
  repeat' split
  all_goals exact List.cons_ne_nil _ _

/-- The controls are the first range of what does not show. -/
theorem Text.isPrintable_of_control {c : Char} (h : c.toNat ≤ 0x1f) : isPrintable c = false := by
  have range : (0x0, 0x1f) ∈ invisibleRanges := List.mem_cons_self
  have invisible : covers invisibleRanges c = true :=
    List.any_eq_true.2 ⟨_, range, by simpa using h⟩
  rw [isPrintable, invisible]
  rfl

theorem Text.quotedChar_eq_self_iff {c : Char} :
    quotedChar c = [c] ↔ c ≠ '"' ∧ c ≠ '\\' ∧ isPrintable c = true := by
  constructor
  · intro same
    unfold quotedChar at same
    repeat' split at same
    all_goals
      first
        | exact ⟨by assumption, by assumption, by assumption⟩
        | exact absurd same (by simp)
  · rintro ⟨quotation, backslash, printable⟩
    have shown {d : Char} (control : d.toNat ≤ 0x1f) : c ≠ d := fun eq =>
      Bool.noConfusion (printable.symm.trans (eq ▸ isPrintable_of_control control))
    simp [quotedChar, quotation, backslash, printable, shown (d := '\t') (by decide),
      shown (d := '\r') (by decide), shown (d := '\n') (by decide), shown (d := '\x00') (by decide)]

end escapes

namespace Json

theorem isBlank_of_isTextChar {c : Char} (h : Number.isTextChar c = true) : Text.isBlank c = false := by
  by_contra blank
  rw [Bool.not_eq_false] at blank
  have codes : ∀ n ∈ Text.blankCodes, Number.isTextChar (Char.ofNat n) = false := by decide
  have absent := codes _ (Text.mem_blankCodes blank)
  rw [Char.ofNat_toNat] at absent
  exact Bool.noConfusion (h.symm.trans absent)

/-- Text that neither begins nor ends with white space. -/
def Solid (text : List Char) : Prop :=
  text ≠ [] ∧ (∀ c ∈ text.head?, Text.isBlank c = false) ∧
    ∀ c ∈ text.getLast?, Text.isBlank c = false

theorem getLast?_compactElements (elements : List Json) :
    (compactElements elements).getLast? = some ']' := by
  induction elements with
  | nil => rfl
  | cons first rest ih =>
    rw [compactElements, List.getLast?_cons, List.getLast?_append, ih]
    rfl

theorem getLast?_compactFields (fields : List (String × Json)) :
    (compactFields fields).getLast? = some '}' := by
  induction fields with
  | nil => rfl
  | cons first rest ih =>
    obtain ⟨name, value⟩ := first
    simp [compactFields, List.getLast?_cons, List.getLast?_append, ih]

theorem solid_compact (value : Json) : Solid value.compact := by
  have ends {text : List Char} {first last : Char} (head : text.head? = some first)
      (final : text.getLast? = some last) (front : Text.isBlank first = false)
      (back : Text.isBlank last = false) : Solid text := by
    refine ⟨by rintro rfl; simp at head, fun c mem => ?_, fun c mem => ?_⟩
    · exact Option.some.inj (head.symm.trans mem) ▸ front
    · exact Option.some.inj (final.symm.trans mem) ▸ back
  cases value with
  | null => exact ends rfl rfl (by decide) (by decide)
  | bool value => cases value <;> exact ends rfl rfl (by decide) (by decide)
  | number value =>
    have solid : ∀ c ∈ value.text, Text.isBlank c = false := fun c mem =>
      isBlank_of_isTextChar (Number.isTextChar_of_mem_text mem)
    exact ⟨value.text_ne_nil, fun c mem => solid c (List.mem_of_mem_head? mem),
      fun c mem => solid c (List.mem_of_mem_getLast? mem)⟩
  | string text =>
    exact ends rfl (List.getLast?_concat (l := '"' :: _)) (by decide) (by decide)
  | array elements =>
    cases elements with
    | nil => exact ends rfl rfl (by decide) (by decide)
    | cons first rest =>
      have final : (compact (.array (first :: rest))).getLast? = some ']' := by
        simp [compact, List.getLast?_cons, List.getLast?_append, getLast?_compactElements]
      exact ends rfl final (by decide) (by decide)
  | object fields =>
    cases fields with
    | nil => exact ends rfl rfl (by decide) (by decide)
    | cons field rest =>
      obtain ⟨name, first⟩ := field
      have final : (compact (.object ((name, first) :: rest))).getLast? = some '}' := by
        simp [compact, List.getLast?_cons, List.getLast?_append, getLast?_compactFields]
      exact ends rfl final (by decide) (by decide)

/-- The reader of predicates finds the value again in its text. -/
def Legible : Json → Prop
  | .string text => ∀ c ∈ text.toList, c ≠ '"' ∧ c ≠ '\\' ∧ ' ' ≤ c
  | value => ∀ x, .double x ∈ value.numbers → (Number.double x).readsBack = true

end Json

namespace Predicate

/-- The predicate comes back if its text is read. -/
def Legible : Predicate → Prop
  | .equals _ value => value.Legible
  | .contains _ needle => ∀ c ∈ needle.toList, c ≠ '"' ∧ c ≠ '\\' ∧ Text.isPrintable c = true
  | .not inner => inner.Legible
  | _ => True

theorem literal_quoted (body : List Char) :
    literal ('"' :: (body ++ ['"'])) = .string (String.ofList body) := by
  simp [literal, betweenQuotes?]

/-- Only the text of a string begins with a quotation mark. -/
theorem betweenQuotes?_compact {value : Json} (h : ∀ text, value ≠ .string text) :
    betweenQuotes? value.compact = none := by
  have unquoted {text : List Char} (head : text.head? ≠ some '"') : betweenQuotes? text = none := by
    unfold betweenQuotes?
    split
    · exact absurd rfl head
    · rfl
  cases value with
  | null => rfl
  | bool value => cases value <;> rfl
  | number value =>
    refine unquoted fun head => ?_
    have char := Number.isTextChar_of_mem_text (List.mem_of_mem_head? head)
    exact absurd char (by decide)
  | string text => exact absurd rfl (h text)
  | array elements => cases elements <;> rfl
  | object fields => cases fields <;> rfl

/-- The literal in a printed comparison is the value, up to the escapes of a string that stands alone and
up to what numbers are read as. -/
theorem literal_compact_equal {value : Json} (read : Json.Read Json.maxDepth value) :
    (literal value.compact == value) = true ↔ value.Legible := by
  cases plain : value.string? with
  | some text =>
    obtain rfl : value = .string text := by
      cases value <;> first | exact congrArg Json.string (Option.some.inj plain) | simp [Json.string?] at plain
    have found : literal (Json.string text).compact =
        .string (String.ofList (text.toList.flatMap Json.escapeChar)) := literal_quoted _
    have same : ((Json.string (String.ofList (text.toList.flatMap Json.escapeChar))) == .string text) =
        decide (String.ofList (text.toList.flatMap Json.escapeChar) = text) := rfl
    rw [found, same, decide_eq_true_iff, ← String.toList_inj, String.toList_ofList,
      flatMap_eq_self_iff Json.Token.escapeChar_ne_nil]
    exact forall₂_congr fun c _ => Json.escapeChar_eq_self_iff
  | none =>
    have other (text : String) : value ≠ .string text := by
      rintro rfl
      exact Option.some_ne_none _ plain
    have found : literal value.compact =
        value.reread.getD (.string (String.ofList value.compact)) := by
      rw [literal, betweenQuotes?_compact other, Json.parse?_compact read]
    have different : (Json.string (String.ofList value.compact)).equal value = false := by
      cases value <;> first | rfl | exact absurd rfl (other _)
    have same : (literal value.compact == value) = value.reread.any (·.equal value) := by
      rw [found]
      cases value.reread with
      | none => exact different
      | some again => rfl
    have legible : value.Legible ↔ ∀ x, .double x ∈ value.numbers → (Number.double x).readsBack = true := by
      cases value <;> first | rfl | exact absurd rfl (other _)
    rw [same, Json.any_reread, List.all_eq_true, legible]
    constructor
    · exact fun all x mem => all _ mem
    · intro doubles number mem
      have storable := read.storable number mem
      cases number with
      | integer n => exact Number.readsBack_integer storable
      | double x => exact doubles x mem
      | single x => exact storable.elim

section display

variable {key : String}

theorem parse_truthy (identifier : isIdentifier key.toList = true) : parse key = .ok (.truthy key) := by
  have chars := isIdentifierChar_of_mem identifier
  have found := ofTrimmed?_truth identifier
  rw [String.ofList_toList] at found
  exact parse_of_ofTrimmed? (ne_nil_of_isIdentifier identifier) (isBlank_head chars)
    (isBlank_getLast chars) found

theorem parse_falsy (identifier : isIdentifier key.toList = true) :
    parse ("!" ++ key) = .ok (.not (.truthy key)) := by
  have chars := isIdentifierChar_of_mem identifier
  have shown : ("!" ++ key).toList = '!' :: key.toList := by simp
  have found := ofTrimmed?_negation identifier Text.blank_nil
  rw [String.ofList_toList, List.nil_append] at found
  refine parse_of_ofTrimmed? ?_ ?_ ?_ ?_ <;> rw [shown]
  · exact List.cons_ne_nil _ _
  · intro c mem
    obtain rfl := Option.some.inj mem
    decide
  · rw [List.getLast?_cons_of_ne_nil (ne_nil_of_isIdentifier identifier)]
    exact isBlank_getLast chars
  · exact found

/-- A key, an operator and a text that is read after it. -/
theorem parse_comparison {operator value : List Char} {predicate : Predicate} {expression : String}
    (shown : expression.toList = key.toList ++ (operator ++ value))
    (identifier : isIdentifier key.toList = true) (solid : Json.Solid value)
    (found : ofTrimmed? (key.toList ++ (operator ++ value)) = some predicate) :
    parse expression = .ok predicate := by
  have chars := isIdentifierChar_of_mem identifier
  have nonempty := ne_nil_of_isIdentifier identifier
  obtain ⟨some, -, last⟩ := solid
  refine parse_of_ofTrimmed? ?_ ?_ ?_ ?_ <;> rw [shown]
  · exact List.append_ne_nil_of_left_ne_nil nonempty _
  · rw [List.head?_append_of_ne_nil _ nonempty]
    exact isBlank_head chars
  · rwa [List.getLast?_append_of_ne_nil _ (List.append_ne_nil_of_right_ne_nil _ some),
      List.getLast?_append_of_ne_nil _ some]
  · exact found

theorem blank_space : ∀ c ∈ [' '], Text.isBlank c = true :=
  List.forall_mem_singleton.2 (by decide)

theorem trim_solid {text : List Char} (solid : Json.Solid text) : Text.trim (' ' :: text) = text := by
  obtain ⟨nonempty, head, last⟩ := solid
  have around := Text.trim_between blank_space Text.blank_nil nonempty head last
  rwa [List.append_nil] at around

theorem parse_equals (identifier : isIdentifier key.toList = true) (value : Json) :
    parse (key ++ " == " ++ value.compactText) = .ok (.equals key (literal value.compact)) := by
  have solid := value.solid_compact
  have shown : (key ++ " == " ++ value.compactText).toList =
      key.toList ++ ([' ', '=', '=', ' '] ++ value.compact) := by
    simp [Json.compactText]
  have found := ofTrimmed?_equals identifier blank_space (' ' :: value.compact)
  rw [String.ofList_toList, trim_solid solid, List.append_assoc] at found
  exact parse_comparison shown identifier solid found

theorem parse_differs (identifier : isIdentifier key.toList = true) (value : Json) :
    parse (key ++ " != " ++ value.compactText) = .ok (.not (.equals key (literal value.compact))) := by
  have solid := value.solid_compact
  have shown : (key ++ " != " ++ value.compactText).toList =
      key.toList ++ ([' ', '!', '=', ' '] ++ value.compact) := by
    simp [Json.compactText]
  have found := ofTrimmed?_differs identifier blank_space (' ' :: value.compact)
  rw [String.ofList_toList, trim_solid solid, List.append_assoc] at found
  exact parse_comparison shown identifier solid found

theorem solid_quoted (body : List Char) : Json.Solid ('"' :: (body ++ ['"'])) := by
  refine ⟨List.cons_ne_nil _ _, fun c mem => ?_, fun c mem => ?_⟩
  · obtain rfl := Option.some.inj mem
    decide
  · rw [← List.cons_append, List.getLast?_concat] at mem
    obtain rfl := Option.some.inj mem
    decide

theorem parse_contains (identifier : isIdentifier key.toList = true) (needle : String) :
    parse (key ++ " contains " ++ Text.quoted needle) =
      .ok (.contains key (String.ofList (needle.toList.flatMap Text.quotedChar))) := by
  have solid := solid_quoted (needle.toList.flatMap Text.quotedChar)
  have shown : (key ++ " contains " ++ Text.quoted needle).toList =
      key.toList ++ (containment ++ '"' :: (needle.toList.flatMap Text.quotedChar ++ ['"'])) := by
    simp [Text.quoted, containment]
  have found := ofTrimmed?_contains identifier Text.blank_nil
    ('"' :: (needle.toList.flatMap Text.quotedChar ++ ['"']))
  have trimmed : Text.trim ('"' :: (needle.toList.flatMap Text.quotedChar ++ ['"'])) =
      '"' :: (needle.toList.flatMap Text.quotedChar ++ ['"']) :=
    Text.trim_eq_self solid.1 solid.2.1 solid.2.2
  rw [String.ofList_toList, trimmed, literal_quoted, List.append_nil] at found
  exact parse_comparison shown identifier solid found

end display

/-- Comparisons of one key are equal if their values are. -/
theorem equals_beq (key : String) (value other : Json) :
    (Predicate.equals key value == .equals key other) = (value == other) := by
  change (key == key && value == other) = (value == other)
  rw [beq_self_eq_true, Bool.true_and]

/-- The text of a predicate that was read can always be read, and it stands for the same predicate if and
only if there is nothing to escape in its literal and the doubles in it are read back from their texts. -/
theorem parse_display {expression : String} {predicate : Predicate}
    (h : parse expression = .ok predicate) :
    ∃ again, parse predicate.display = .ok again ∧
      ((again == predicate) = true ↔ predicate.Legible) := by
  cases parsed_of_parse h with
  | @truthy key identifier =>
    have same : (Predicate.truthy key == .truthy key) = true := beq_self_eq_true key
    exact ⟨_, parse_truthy identifier, iff_of_true same trivial⟩
  | @falsy key identifier =>
    have same : (Predicate.not (.truthy key) == .not (.truthy key)) = true := beq_self_eq_true key
    exact ⟨_, parse_falsy identifier, iff_of_true same trivial⟩
  | @equals key value identifier read =>
    refine ⟨_, parse_equals identifier value, ?_⟩
    rw [equals_beq]
    exact literal_compact_equal read
  | @differs key value identifier read =>
    have inner : (Predicate.not (.equals key (literal value.compact)) == .not (.equals key value)) =
        (Predicate.equals key (literal value.compact) == .equals key value) := rfl
    refine ⟨_, parse_differs identifier value, ?_⟩
    rw [inner, equals_beq]
    exact literal_compact_equal read
  | @contains key identifier needle =>
    refine ⟨_, parse_contains identifier needle, ?_⟩
    have same : (Predicate.contains key (String.ofList (needle.toList.flatMap Text.quotedChar)) ==
        .contains key needle) =
          decide (String.ofList (needle.toList.flatMap Text.quotedChar) = needle) := by
      change (key == key && decide _) = _
      rw [beq_self_eq_true, Bool.true_and]
    rw [same, decide_eq_true_iff, ← String.toList_inj, String.toList_ofList,
      flatMap_eq_self_iff Text.quotedChar_ne_nil]
    exact forall₂_congr fun c _ => Text.quotedChar_eq_self_iff

theorem parse_display_status :
    parse "status == \"in review\"" = .ok (.equals "status" (.string "in review")) ∧
      ∃ again, parse (Predicate.equals "status" (.string "in review")).display = .ok again ∧
        ((again == .equals "status" (.string "in review")) = true ↔
          (Predicate.equals "status" (.string "in review")).Legible) := by
  have read : parse "status == \"in review\"" = .ok (.equals "status" (.string "in review")) := rfl
  exact ⟨read, parse_display read⟩

/-- A quotation mark inside of a literal is escaped, and the backslash is read as a part of the text. -/
theorem not_parse_display_same :
    ¬ ∀ expression predicate, parse expression = .ok predicate →
      ∃ again, parse predicate.display = .ok again ∧ (again == predicate) = true := by
  intro same
  have read : parse "status == \"ok" = .ok (.equals "status" (.string "\"ok")) := rfl
  have shown : parse (Predicate.equals "status" (.string "\"ok")).display =
      .ok (.equals "status" (.string "\\\"ok")) := rfl
  obtain ⟨again, reread, equal⟩ := same _ _ read
  rw [shown] at reread
  obtain rfl := Except.ok.inj reread
  exact absurd equal (by decide)

end Predicate
end Workflow
