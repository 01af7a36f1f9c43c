import Mathlib.Data.List.Infix
import Mathlib.Data.List.TakeWhile
import Workflow.Predicate.Parser
import Workflow.Proofs.Json.Reading

/-! Reading predicates. An operator is found at its first place, and the reading goes on with the next
operator unless a key stands before it; so only the operator right after the key counts. -/
namespace Workflow

namespace Text

theorem trimStart_of_head {text : List Char} (h : ∀ c ∈ text.head?, isBlank c = false) :
    trimStart text = text := by
  cases text with
  | nil => rfl
  | cons c rest => exact List.dropWhile_cons_of_neg (by simp [h c rfl])

theorem trimStart_blank_append {gap text : List Char} (blank : ∀ c ∈ gap, isBlank c = true) :
    trimStart (gap ++ text) = trimStart text := by
  induction gap with
  | nil => rfl
  | cons c rest ih =>
    obtain ⟨first, rest⟩ := List.forall_mem_cons.1 blank
    rw [List.cons_append, trimStart, List.dropWhile_cons_of_pos first]
    exact ih rest

theorem blank_nil : ∀ c ∈ ([] : List Char), isBlank c = true :=
  fun _ mem => absurd mem List.not_mem_nil

/-- Text that neither begins nor ends with white space loses what stands around it. -/
theorem trim_between {before text after : List Char} (front : ∀ c ∈ before, isBlank c = true)
    (back : ∀ c ∈ after, isBlank c = true) (nonempty : text ≠ [])
    (head : ∀ c ∈ text.head?, isBlank c = false) (last : ∀ c ∈ text.getLast?, isBlank c = false) :
    trim (before ++ (text ++ after)) = text := by
  have begins : ∀ c ∈ (text ++ after).head?, isBlank c = false := by
    rwa [List.head?_append_of_ne_nil _ nonempty]
  have ends : ∀ c ∈ text.reverse.head?, isBlank c = false := by
    rwa [List.head?_reverse]
  rw [trim, trimStart_blank_append front, trimStart_of_head begins, List.reverse_append,
    trimStart_blank_append (by simpa using back), trimStart_of_head ends, List.reverse_reverse]

theorem trim_eq_self {text : List Char} (nonempty : text ≠ [])
    (head : ∀ c ∈ text.head?, isBlank c = false) (last : ∀ c ∈ text.getLast?, isBlank c = false) :
    trim text = text := by
  have around := trim_between blank_nil blank_nil nonempty head last
  rwa [List.nil_append, List.append_nil] at around

theorem mem_trimStart {text : List Char} {c : Char} (mem : c ∈ text) (solid : isBlank c = false) :
    c ∈ trimStart text := by
  rw [← List.takeWhile_append_dropWhile (p := isBlank) (l := text)] at mem
  rcases List.mem_append.1 mem with dropped | kept
  · have blank := List.mem_takeWhile_imp dropped
    exact Bool.noConfusion (solid.symm.trans blank)
  · exact kept

theorem mem_trim {text : List Char} {c : Char} (mem : c ∈ text) (solid : isBlank c = false) :
    c ∈ trim text := by
  have kept : c ∈ (trimStart text).reverse := List.mem_reverse.2 (mem_trimStart mem solid)
  exact List.mem_reverse.2 (mem_trimStart kept solid)

/-- The code points of white space. -/
def blankCodes : List Nat :=
  [0x9, 0xa, 0xb, 0xc, 0xd, 0x20, 0x85, 0xa0, 0x1680, 0x2000, 0x2001, 0x2002, 0x2003, 0x2004, 0x2005,
   0x2006, 0x2007, 0x2008, 0x2009, 0x200a, 0x2028, 0x2029, 0x202f, 0x205f, 0x3000]

theorem mem_blankCodes {c : Char} (h : isBlank c = true) : c.toNat ∈ blankCodes := by
  have between {first last : Char} (least : first ≤ c) (most : c ≤ last) :
      first.toNat ≤ c.toNat ∧ c.toNat ≤ last.toNat := ⟨least, most⟩
  simp only [isBlank, Bool.or_eq_true, Bool.and_eq_true, decide_eq_true_eq, beq_iff_eq] at h
  rcases h with (((((((((⟨least, most⟩ | rfl) | rfl) | rfl) | rfl) | ⟨least, most⟩) | rfl) |
    rfl) | rfl) | rfl) | rfl
  · obtain ⟨least, most⟩ : 0x9 ≤ c.toNat ∧ c.toNat ≤ 0xd := between least most
    simp only [blankCodes, List.mem_cons]
    omega
  · decide
  · decide
  · decide
  · decide
  · obtain ⟨least, most⟩ : 0x2000 ≤ c.toNat ∧ c.toNat ≤ 0x200a := between least most
    simp only [blankCodes, List.mem_cons]
    omega
  all_goals decide

theorem isAlphanumeric_of_isBlank {c : Char} (h : isBlank c = true) : isAlphanumeric c = false := by
  have apart : ∀ n ∈ blankCodes,
      (alphanumericRanges.any fun range => range.1 ≤ n && n ≤ range.2) = false := by
    decide +kernel
  exact apart _ (mem_blankCodes h)

end Text

namespace Predicate

theorem isBlank_of_isIdentifierChar {c : Char} (h : isIdentifierChar c = true) :
    Text.isBlank c = false := by
  by_contra blank
  rw [Bool.not_eq_false] at blank
  have letter := Text.isAlphanumeric_of_isBlank blank
  simp only [isIdentifierChar, letter, Bool.false_or, Bool.or_eq_true, beq_iff_eq] at h
  rcases h with ((rfl | rfl) | rfl) | rfl <;> exact absurd blank (by decide)

theorem isIdentifierChar_of_mem {key : List Char} (h : isIdentifier key = true) :
    ∀ c ∈ key, isIdentifierChar c = true := by
  have all := (Bool.and_eq_true _ _ ▸ h).2
  exact List.all_eq_true.1 all

theorem ne_nil_of_isIdentifier {key : List Char} (h : isIdentifier key = true) : key ≠ [] := by
  rintro rfl
  exact absurd h (by decide)

theorem isIdentifierChar_operator {c : Char} (mem : c ∈ ['!', '=', ' ']) :
    isIdentifierChar c = false := by
  simp only [List.mem_cons, List.not_mem_nil, or_false] at mem
  rcases mem with rfl | rfl | rfl <;> decide +kernel

section split

/-- The operator does not begin before the tail. -/
def Clear (operator front tail : List Char) : Prop :=
  ∀ before rest, front = before ++ rest → rest ≠ [] → ¬ operator <+: rest ++ tail

variable {operator front tail : List Char}

theorem Clear.of_cons {c : Char} (h : Clear operator (c :: front) tail) : Clear operator front tail :=
  fun before rest eq => h (c :: before) rest (by rw [eq]; rfl)

/-- An operator that begins with a character that is not there is not there. -/
theorem clear_of_not_mem {c : Char} (h : c ∉ front) : Clear (c :: operator) front tail := by
  rintro before rest rfl nonempty ⟨after, occurs⟩
  obtain ⟨first, others, rfl⟩ := List.exists_cons_of_ne_nil nonempty
  have same : c = first := (List.cons.inj occurs).1
  exact h (by simp [same])

/-- The split is at the first place. -/
theorem splitOnce?_append {after : List Char} (nonempty : operator ≠ [])
    (h : Clear operator front (operator ++ after)) :
    splitOnce? operator (front ++ (operator ++ after)) = some (front, after) := by
  induction front with
  | nil =>
    obtain ⟨c, rest, eq⟩ := List.exists_cons_of_ne_nil nonempty
    have here : operator.isPrefixOf? (operator ++ after) = some after :=
      List.isPrefixOf?_eq_some_iff_append_eq.2 rfl
    rw [List.nil_append]
    rw [eq, List.cons_append] at here ⊢
    rw [splitOnce?, here]
  | cons c rest ih =>
    have later : operator.isPrefixOf? (c :: (rest ++ (operator ++ after))) = none := by
      by_contra some
      obtain ⟨found, here⟩ := Option.ne_none_iff_exists'.1 some
      exact h [] (c :: rest) rfl (List.cons_ne_nil _ _)
        ⟨found, List.isPrefixOf?_eq_some_iff_append_eq.1 here⟩
    rw [List.cons_append, splitOnce?, later, ih h.of_cons]
    rfl

theorem eq_append_of_splitOnce? {text before after : List Char}
    (h : splitOnce? operator text = some (before, after)) : text = before ++ (operator ++ after) := by
  induction text generalizing before after with
  | nil =>
    simp only [splitOnce?] at h
    split at h
    · next empty =>
      obtain ⟨rfl, rfl⟩ := Prod.mk.inj (Option.some.inj h)
      simpa using empty
    · exact absurd h (Option.some_ne_none _).symm
  | cons c rest ih =>
    simp only [splitOnce?] at h
    split at h
    · next found here =>
      obtain ⟨rfl, rfl⟩ := Prod.mk.inj (Option.some.inj h)
      exact (List.isPrefixOf?_eq_some_iff_append_eq.1 here).symm
    · obtain ⟨⟨front, found⟩, later, eq⟩ := Option.map_eq_some_iff.1 h
      obtain ⟨rfl, rfl⟩ := Prod.mk.inj eq
      rw [ih later, List.cons_append]

end split

section comparison

variable {operator key gap : List Char}

theorem isBlank_head {text : List Char} (h : ∀ c ∈ text, isIdentifierChar c = true) :
    ∀ c ∈ text.head?, Text.isBlank c = false := fun c mem =>
  isBlank_of_isIdentifierChar (h c (List.mem_of_mem_head? mem))

theorem isBlank_getLast {text : List Char} (h : ∀ c ∈ text, isIdentifierChar c = true) :
    ∀ c ∈ text.getLast?, Text.isBlank c = false := fun c mem =>
  isBlank_of_isIdentifierChar (h c (List.mem_of_mem_getLast? mem))

/-- White space around a key is no part of it. -/
theorem trim_key {before after : List Char} (identifier : isIdentifier key = true)
    (front : ∀ c ∈ before, Text.isBlank c = true) (back : ∀ c ∈ after, Text.isBlank c = true) :
    Text.trim (before ++ (key ++ after)) = key := by
  have chars := isIdentifierChar_of_mem identifier
  exact Text.trim_between front back (ne_nil_of_isIdentifier identifier) (isBlank_head chars)
    (isBlank_getLast chars)

/-- The comparison of a key that stands right before the operator. -/
theorem splitComparison?_eq_some {value : List Char} (identifier : isIdentifier key = true)
    (blank : ∀ c ∈ gap, Text.isBlank c = true) (nonempty : operator ≠ [])
    (clear : Clear operator (key ++ gap) (operator ++ value)) :
    splitComparison? operator (key ++ gap ++ (operator ++ value)) =
      some (String.ofList key, Text.trim value) := by
  have trimmed : Text.trim (key ++ gap) = key :=
    trim_key identifier Text.blank_nil blank
  rw [splitComparison?, splitOnce?_append nonempty clear]
  change (guard (isIdentifier (Text.trim (key ++ gap)) = true) >>= fun _ =>
    some (String.ofList (Text.trim (key ++ gap)), Text.trim value)) = _
  rw [trimmed, guard_pos identifier]
  rfl

theorem not_isIdentifier_of_mem {text : List Char} {mark : Char} (mem : mark ∈ text)
    (solid : Text.isBlank mark = false) (foreign : isIdentifierChar mark = false) :
    isIdentifier (Text.trim text) = false := by
  by_contra identifier
  rw [Bool.not_eq_false] at identifier
  have char := isIdentifierChar_of_mem identifier mark (Text.mem_trim mem solid)
  exact Bool.noConfusion (foreign.symm.trans char)

/-- An operator that begins after a character of no key is passed over. -/
theorem splitComparison?_eq_none {front tail : List Char} {mark : Char}
    (clear : Clear operator front (mark :: tail)) (elsewhere : ¬ operator <+: mark :: tail)
    (solid : Text.isBlank mark = false) (foreign : isIdentifierChar mark = false) :
    splitComparison? operator (front ++ mark :: tail) = none := by
  cases split : splitOnce? operator (front ++ mark :: tail) with
  | none => simp [splitComparison?, split]
  | some parts =>
    obtain ⟨before, after⟩ := parts
    have among : mark ∈ before := by
      have parts := eq_append_of_splitOnce? split
      rcases List.append_eq_append_iff.1 parts with ⟨more, rfl, rest⟩ | ⟨more, rfl, rest⟩
      · cases more with
        | nil => exact absurd ⟨after, rest.symm⟩ elsewhere
        | cons c others =>
          obtain ⟨rfl, -⟩ := List.cons.inj rest
          simp
      · cases more with
        | nil => exact absurd ⟨after, by simpa using rest⟩ elsewhere
        | cons c others => exact absurd ⟨after, rest⟩ (clear before _ rfl (List.cons_ne_nil _ _))
    have refused := not_isIdentifier_of_mem among solid foreign
    rw [splitComparison?, split]
    change (guard (isIdentifier (Text.trim before) = true) >>= fun _ =>
      some (String.ofList (Text.trim before), Text.trim after)) = _
    rw [refused, guard_neg Bool.false_ne_true]
    rfl

theorem splitComparison?_of_not_mem {text : List Char} {c : Char} (h : c ∉ text) :
    splitComparison? (c :: operator) text = none := by
  cases split : splitOnce? (c :: operator) text with
  | none => simp [splitComparison?, split]
  | some parts =>
    obtain ⟨before, after⟩ := parts
    exact absurd (eq_append_of_splitOnce? split ▸ by simp) h

/-- The operator between a key and a needle. -/
def containment : List Char :=
  [' ', 'c', 'o', 'n', 't', 'a', 'i', 'n', 's', ' ']

/-- After a key and white space the needle's operator begins with the last space. -/
theorem clear_containment {tail : List Char} {mark : Char} (identifier : isIdentifier key = true)
    (blank : ∀ c ∈ gap, Text.isBlank c = true) (h : mark ≠ 'c') :
    Clear containment (key ++ gap) (mark :: tail) := by
  rintro before rest parts nonempty ⟨after, occurs⟩
  obtain ⟨first, others, rfl⟩ := List.exists_cons_of_ne_nil nonempty
  simp only [containment, List.cons_append, List.cons.injEq] at occurs
  obtain ⟨rfl, occurs⟩ := occurs
  cases others with
  | nil => exact h (List.cons.inj occurs).1.symm
  | cons second others =>
    obtain ⟨rfl, -⟩ := List.cons.inj occurs
    rcases List.append_eq_append_iff.1 parts with ⟨more, -, rest⟩ | ⟨more, rfl, rest⟩
    · have letter := blank 'c' (by simp [rest])
      exact absurd letter (by decide)
    · cases more with
      | nil =>
        have inside : ' ' :: 'c' :: others = gap := rest
        have letter := blank 'c' (by simp [← inside])
        exact absurd letter (by decide)
      | cons c others =>
        obtain ⟨rfl, -⟩ := List.cons.inj rest
        have space := isIdentifierChar_of_mem identifier ' ' (by simp)
        exact Bool.noConfusion (space.symm.trans (isIdentifierChar_operator (c := ' ') (by decide)))

end comparison

section forms

variable {key gap value : List Char}

theorem not_mem_of_isIdentifier {c : Char} (identifier : isIdentifier key = true)
    (foreign : isIdentifierChar c = false) : c ∉ key := fun mem => by
  have char := isIdentifierChar_of_mem identifier c mem
  exact Bool.noConfusion (foreign.symm.trans char)

/-- Neither a key nor white space begins an operator other than the needle's. -/
theorem not_mem_key {c : Char} (identifier : isIdentifier key = true)
    (blank : ∀ c ∈ gap, Text.isBlank c = true) (foreign : isIdentifierChar c = false)
    (solid : Text.isBlank c = false) : c ∉ key ++ gap := fun mem => by
  rcases List.mem_append.1 mem with mem | mem
  · exact not_mem_of_isIdentifier identifier foreign mem
  · exact Bool.noConfusion (solid.symm.trans (blank c mem))

theorem ofTrimmed?_contains (identifier : isIdentifier key = true)
    (blank : ∀ c ∈ gap, Text.isBlank c = true) (value : List Char) :
    ofTrimmed? (key ++ gap ++ (containment ++ value)) =
      some (.contains (String.ofList key) (literal (Text.trim value)).display) := by
  have clear : Clear containment (key ++ gap) (containment ++ value) :=
    clear_containment identifier blank (by decide)
  have found := splitComparison?_eq_some identifier blank (by decide) clear
  have first : ofTrimmed?.containment? (key ++ gap ++ (containment ++ value)) =
      some (.contains (String.ofList key) (literal (Text.trim value)).display) := by
    rw [ofTrimmed?.containment?]
    change (splitComparison? containment _ >>= _) = _
    rw [found]
    rfl
  rw [ofTrimmed?, first]
  rfl

theorem containment?_eq_none {tail : List Char} {mark : Char} (identifier : isIdentifier key = true)
    (blank : ∀ c ∈ gap, Text.isBlank c = true) (letter : mark ≠ 'c') (space : mark ≠ ' ')
    (solid : Text.isBlank mark = false) (foreign : isIdentifierChar mark = false) :
    ofTrimmed?.containment? (key ++ gap ++ mark :: tail) = none := by
  have clear : Clear containment (key ++ gap) (mark :: tail) :=
    clear_containment identifier blank letter
  have elsewhere : ¬ containment <+: mark :: tail := by
    rintro ⟨after, occurs⟩
    exact space (List.cons.inj occurs).1.symm
  have passed := splitComparison?_eq_none clear elsewhere solid foreign
  rw [ofTrimmed?.containment?]
  change (splitComparison? containment _ >>= _) = _
  rw [passed]
  rfl

theorem ofTrimmed?_differs (identifier : isIdentifier key = true)
    (blank : ∀ c ∈ gap, Text.isBlank c = true) (value : List Char) :
    ofTrimmed? (key ++ gap ++ (['!', '='] ++ value)) =
      some (.not (.equals (String.ofList key) (literal (Text.trim value)))) := by
  have foreign := isIdentifierChar_operator (c := '!') (by decide)
  have passed : ofTrimmed?.containment? (key ++ gap ++ (['!', '='] ++ value)) = none :=
    containment?_eq_none identifier blank (by decide) (by decide) (by decide) foreign
  have clear : Clear ['!', '='] (key ++ gap) (['!', '='] ++ value) :=
    clear_of_not_mem (not_mem_key identifier blank foreign (by decide))
  have found := splitComparison?_eq_some identifier blank (by decide) clear
  have second : ofTrimmed?.difference? (key ++ gap ++ (['!', '='] ++ value)) =
      some (.not (.equals (String.ofList key) (literal (Text.trim value)))) := by
    rw [ofTrimmed?.difference?, found]
    rfl
  rw [ofTrimmed?, passed, second]
  rfl

theorem ofTrimmed?_equals (identifier : isIdentifier key = true)
    (blank : ∀ c ∈ gap, Text.isBlank c = true) (value : List Char) :
    ofTrimmed? (key ++ gap ++ (['=', '='] ++ value)) =
      some (.equals (String.ofList key) (literal (Text.trim value))) := by
  have foreign := isIdentifierChar_operator (c := '=') (by decide)
  have passed : ofTrimmed?.containment? (key ++ gap ++ (['=', '='] ++ value)) = none :=
    containment?_eq_none identifier blank (by decide) (by decide) (by decide) foreign
  have unmarked : '!' ∉ key ++ gap :=
    not_mem_key identifier blank (isIdentifierChar_operator (c := '!') (by decide)) (by decide)
  have later : splitComparison? ['!', '='] (key ++ gap ++ (['=', '='] ++ value)) = none := by
    refine splitComparison?_eq_none (clear_of_not_mem unmarked) ?_ (by decide) foreign
    rintro ⟨after, occurs⟩
    exact absurd (List.cons.inj occurs).1 (by decide)
  have clear : Clear ['=', '='] (key ++ gap) (['=', '='] ++ value) :=
    clear_of_not_mem (not_mem_key identifier blank foreign (by decide))
  have found := splitComparison?_eq_some identifier blank (by decide) clear
  have second : ofTrimmed?.difference? (key ++ gap ++ (['=', '='] ++ value)) = none := by
    rw [ofTrimmed?.difference?, later]
    rfl
  have third : ofTrimmed?.equality? (key ++ gap ++ (['=', '='] ++ value)) =
      some (.equals (String.ofList key) (literal (Text.trim value))) := by
    rw [ofTrimmed?.equality?, found]
    rfl
  rw [ofTrimmed?, passed, second, third]
  rfl

theorem ofTrimmed?_negation (identifier : isIdentifier key = true)
    (blank : ∀ c ∈ gap, Text.isBlank c = true) :
    ofTrimmed? ('!' :: (gap ++ key)) = some (.not (.truthy (String.ofList key))) := by
  have foreign := isIdentifierChar_operator (c := '!') (by decide)
  -- Every operator would begin after the exclamation mark.
  have passed (operator : List Char) (elsewhere : ¬ operator <+: '!' :: (gap ++ key)) :
      splitComparison? operator ('!' :: (gap ++ key)) = none := by
    have clear : Clear operator [] ('!' :: (gap ++ key)) := fun before rest parts nonempty =>
      absurd (List.append_eq_nil_iff.1 parts.symm).2 nonempty
    exact splitComparison?_eq_none clear elsewhere (by decide) foreign
  have first : ofTrimmed?.containment? ('!' :: (gap ++ key)) = none := by
    have none := passed containment fun ⟨after, occurs⟩ =>
      absurd (List.cons.inj occurs).1 (by decide)
    rw [ofTrimmed?.containment?]
    change (splitComparison? containment _ >>= _) = _
    rw [none]
    rfl
  have second : ofTrimmed?.difference? ('!' :: (gap ++ key)) = none := by
    have none := passed ['!', '='] fun ⟨after, occurs⟩ => by
      have follows : '=' ∈ gap ++ key := by
        rw [← (List.cons.inj occurs).2]
        simp
      rcases List.mem_append.1 follows with mem | mem
      · exact absurd (blank '=' mem) (by decide)
      · exact not_mem_of_isIdentifier identifier (isIdentifierChar_operator (c := '=') (by decide)) mem
    rw [ofTrimmed?.difference?, none]
    rfl
  have third : ofTrimmed?.equality? ('!' :: (gap ++ key)) = none := by
    have none := passed ['=', '='] fun ⟨after, occurs⟩ =>
      absurd (List.cons.inj occurs).1 (by decide)
    rw [ofTrimmed?.equality?, none]
    rfl
  have trimmed : Text.trim (gap ++ key) = key := by
    have around := trim_key identifier blank Text.blank_nil
    rwa [List.append_nil] at around
  rw [ofTrimmed?, first, second, third]
  simp [ofTrimmed?.negation?, trimmed, identifier]

theorem ofTrimmed?_truth (identifier : isIdentifier key = true) :
    ofTrimmed? key = some (.truthy (String.ofList key)) := by
  have absent {c : Char} (among : c ∈ ['!', '=', ' ']) : c ∉ key :=
    not_mem_of_isIdentifier identifier (isIdentifierChar_operator among)
  have passed {c : Char} (operator : List Char) (among : c ∈ ['!', '=', ' ']) :
      splitComparison? (c :: operator) key = none := splitComparison?_of_not_mem (absent among)
  have unmarked : ofTrimmed?.negation? key = none := by
    unfold ofTrimmed?.negation?
    split
    · exact absurd List.mem_cons_self (absent (c := '!') (by decide))
    · rfl
  rw [ofTrimmed?, ofTrimmed?.containment?, ofTrimmed?.difference?, ofTrimmed?.equality?,
    passed _ (by decide), passed _ (by decide), passed _ (by decide), unmarked]
  simp [ofTrimmed?.truth?, identifier]

end forms

section parsed

/-- The predicates that a text can stand for. -/
inductive Parsed : Predicate → Prop where
  | truthy {key : String} (identifier : isIdentifier key.toList = true) : Parsed (.truthy key)
  | falsy {key : String} (identifier : isIdentifier key.toList = true) : Parsed (.not (.truthy key))
  | equals {key : String} {value : Json} (identifier : isIdentifier key.toList = true)
    (read : Json.Read Json.maxDepth value) : Parsed (.equals key value)
  | differs {key : String} {value : Json} (identifier : isIdentifier key.toList = true)
    (read : Json.Read Json.maxDepth value) : Parsed (.not (.equals key value))
  | contains {key : String} (identifier : isIdentifier key.toList = true) (needle : String) :
    Parsed (.contains key needle)

theorem read_literal (text : List Char) : Json.Read Json.maxDepth (literal text) := by
  unfold literal
  split
  · exact .string _
  · cases read : Json.parse? text with
    | none => exact .string _
    | some value => exact Json.read_of_parse? read

/-- A comparison is found where an identifier stands before the first operator. -/
theorem exists_of_splitComparison? {operator text value : List Char} {key : String}
    (h : splitComparison? operator text = some (key, value)) :
    ∃ before after, splitOnce? operator text = some (before, after) ∧
      isIdentifier (Text.trim before) = true ∧ key = String.ofList (Text.trim before) ∧
      value = Text.trim after := by
  obtain ⟨⟨before, after⟩, split, h⟩ := Option.bind_eq_some_iff.1 h
  obtain ⟨_, guarded, last⟩ := Option.bind_eq_some_iff.1 h
  obtain ⟨rfl, rfl⟩ := Prod.mk.inj (Option.some.inj last)
  refine ⟨before, after, split, ?_, rfl, rfl⟩
  by_contra foreign
  rw [guard_neg foreign] at guarded
  exact Option.some_ne_none _ guarded.symm

theorem isIdentifier_of_splitComparison? {operator text value : List Char} {key : String}
    (h : splitComparison? operator text = some (key, value)) : isIdentifier key.toList = true := by
  obtain ⟨before, after, -, identifier, rfl, -⟩ := exists_of_splitComparison? h
  rwa [String.toList_ofList]

theorem parsed_of_ofTrimmed? {text : List Char} {predicate : Predicate}
    (h : ofTrimmed? text = some predicate) : Parsed predicate := by
  have either {first second : Option Predicate} (h : (first <|> second) = some predicate) :
      first = some predicate ∨ second = some predicate := by
    cases first with
    | none => exact .inr h
    | some found => exact .inl h
  rcases either h with contained | h
  · obtain ⟨⟨key, value⟩, found, last⟩ := Option.bind_eq_some_iff.1 contained
    exact Option.some.inj last ▸ .contains (isIdentifier_of_splitComparison? found) _
  rcases either h with different | h
  · obtain ⟨⟨key, value⟩, found, last⟩ := Option.bind_eq_some_iff.1 different
    exact Option.some.inj last ▸ .differs (isIdentifier_of_splitComparison? found) (read_literal value)
  rcases either h with equal | h
  · obtain ⟨⟨key, value⟩, found, last⟩ := Option.bind_eq_some_iff.1 equal
    exact Option.some.inj last ▸ .equals (isIdentifier_of_splitComparison? found) (read_literal value)
  rcases either h with negated | true
  · unfold ofTrimmed?.negation? at negated
    split at negated
    · dsimp only at negated
      split at negated
      · next identifier =>
        exact Option.some.inj negated ▸ .falsy (by rwa [String.toList_ofList])
      · exact absurd negated (Option.some_ne_none _).symm
    · exact absurd negated (Option.some_ne_none _).symm
  · unfold ofTrimmed?.truth? at true
    split at true
    · next identifier => exact Option.some.inj true ▸ .truthy (by rwa [String.toList_ofList])
    · exact absurd true (Option.some_ne_none _).symm

/-- Reading an expression is reading what is left of it after trimming, if anything is. -/
theorem parse_iff_ofTrimmed? {expression : String} {predicate : Predicate} :
    parse expression = .ok predicate ↔ ofTrimmed? (Text.trim expression.toList) = some predicate := by
  unfold parse
  cases text : Text.trim expression.toList with
  | nil =>
    have nothing : ofTrimmed? [] = none := by decide
    simp [nothing]
  | cons c rest =>
    cases found : ofTrimmed? (c :: rest) <;> simp [found]

theorem parsed_of_parse {expression : String} {predicate : Predicate}
    (h : parse expression = .ok predicate) : Parsed predicate :=
  parsed_of_ofTrimmed? (parse_iff_ofTrimmed?.1 h)

/-- An expression with nothing to trim is read as it stands. -/
theorem parse_of_ofTrimmed? {expression : String} {predicate : Predicate}
    (nonempty : expression.toList ≠ [])
    (head : ∀ c ∈ expression.toList.head?, Text.isBlank c = false)
    (last : ∀ c ∈ expression.toList.getLast?, Text.isBlank c = false)
    (h : ofTrimmed? expression.toList = some predicate) : parse expression = .ok predicate := by
  have trimmed : Text.trim expression.toList = expression.toList :=
    Text.trim_eq_self nonempty head last
  rw [parse_iff_ofTrimmed?, trimmed]
  exact h

end parsed

end Predicate
end Workflow
