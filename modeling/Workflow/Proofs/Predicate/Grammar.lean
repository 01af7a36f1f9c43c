import Workflow.Proofs.Predicate.Parser

/-! The grammar of expressions. Reading accepts a text if and only if some phrase of the grammar is
written so, and no text is written for two phrases. -/
namespace Workflow

namespace Text

theorem exists_trimStart (text : List Char) :
    ∃ gap, (∀ c ∈ gap, isBlank c = true) ∧ text = gap ++ trimStart text := by
  refine ⟨text.takeWhile isBlank, ?_, List.takeWhile_append_dropWhile.symm⟩
  intro c mem
  exact List.mem_takeWhile_imp mem

theorem exists_trimEnd (text : List Char) :
    ∃ gap, (∀ c ∈ gap, isBlank c = true) ∧ trimStart text = trim text ++ gap := by
  obtain ⟨gap, blank, rest⟩ := exists_trimStart (trimStart text).reverse
  refine ⟨gap.reverse, by simpa using blank, ?_⟩
  have reversed := congrArg List.reverse rest
  rwa [List.reverse_reverse, List.reverse_append] at reversed

/-- Trimming takes away white space only. -/
theorem exists_trim (text : List Char) :
    ∃ before after, (∀ c ∈ before, isBlank c = true) ∧ (∀ c ∈ after, isBlank c = true) ∧
      text = before ++ (trim text ++ after) := by
  obtain ⟨before, front, start⟩ := exists_trimStart text
  obtain ⟨after, back, ends⟩ := exists_trimEnd text
  refine ⟨before, after, front, back, ?_⟩
  rw [← ends]
  exact start

theorem isBlank_head_trimStart {text : List Char} :
    ∀ c ∈ (trimStart text).head?, isBlank c = false := by
  intro c head
  have first := List.head?_dropWhile_not isBlank text
  rw [show (text.dropWhile isBlank).head? = some c from head] at first
  exact first

/-- A trimmed text does not begin with white space. -/
theorem isBlank_head_trim {text : List Char} : ∀ c ∈ (trim text).head?, isBlank c = false := by
  intro c head
  obtain ⟨after, -, ends⟩ := exists_trimEnd text
  have first : c ∈ (trimStart text).head? := by
    rw [ends, List.head?_append]
    exact Option.or_eq_some_iff.2 (.inl head)
  exact isBlank_head_trimStart c first

/-- Nor does it end with white space. -/
theorem isBlank_getLast_trim {text : List Char} : ∀ c ∈ (trim text).getLast?, isBlank c = false := by
  intro c last
  rw [trim, List.getLast?_reverse] at last
  exact isBlank_head_trimStart c last

end Text

namespace Predicate

/-- A key as it stands in an expression: letters, digits and four marks. -/
@[ext] structure Key where
  chars : List Char
  nonempty : chars ≠ []
  legal : ∀ c ∈ chars, Text.isAlphanumeric c = true ∨ c = '_' ∨ c = ':' ∨ c = '.' ∨ c = '-'

/-- White space between the parts of an expression, if any. -/
@[ext] structure Gap where
  chars : List Char
  blank : ∀ c ∈ chars, Text.isBlank c = true

inductive Comparison where
  | equality
  | difference
  | containment

namespace Comparison

/-- The needle's operator has a space at each end. -/
def operator : Comparison → List Char
  | .equality => ['=', '=']
  | .difference => ['!', '=']
  | .containment => [' ', 'c', 'o', 'n', 't', 'a', 'i', 'n', 's', ' ']

/-- What is said of a key by an operator and the trimmed text after it. -/
def predicate (key : String) (value : List Char) : Comparison → Predicate
  | .equality => .equals key (literal value)
  | .difference => .not (.equals key (literal value))
  | .containment => .contains key (literal value).display

end Comparison

/-- The forms of an expression. Any text may stand behind an operator. -/
inductive Phrase where
  | truth (key : Key)
  | negation (gap : Gap) (key : Key)
  | comparison (key : Key) (gap : Gap) (sign : Comparison) (value : List Char)

namespace Phrase

def text : Phrase → List Char
  | .truth key => key.chars
  | .negation gap key => '!' :: (gap.chars ++ key.chars)
  | .comparison key gap sign value => key.chars ++ gap.chars ++ (sign.operator ++ value)

def predicate : Phrase → Predicate
  | .truth key => .truthy (String.ofList key.chars)
  | .negation _ key => .not (.truthy (String.ofList key.chars))
  | .comparison key _ sign value => sign.predicate (String.ofList key.chars) (Text.trim value)

end Phrase

section reading

theorem isIdentifier_iff {text : List Char} :
    isIdentifier text = true ↔ text ≠ [] ∧ ∀ c ∈ text,
      Text.isAlphanumeric c = true ∨ c = '_' ∨ c = ':' ∨ c = '.' ∨ c = '-' := by
  simp [isIdentifier, isIdentifierChar, or_assoc]

theorem Key.identifier (key : Key) : isIdentifier key.chars = true :=
  isIdentifier_iff.2 ⟨key.nonempty, key.legal⟩

def Key.ofIdentifier {text : List Char} (h : isIdentifier text = true) : Key :=
  ⟨text, (isIdentifier_iff.1 h).1, (isIdentifier_iff.1 h).2⟩

/-- The operator does not begin inside of the key or the gap. -/
theorem Comparison.clear (sign : Comparison) (key : Key) (gap : Gap) (value : List Char) :
    Clear sign.operator (key.chars ++ gap.chars) (sign.operator ++ value) := by
  cases sign with
  | equality =>
    have foreign := isIdentifierChar_operator (c := '=') (by decide)
    exact clear_of_not_mem (not_mem_key key.identifier gap.blank foreign (by decide))
  | difference =>
    have foreign := isIdentifierChar_operator (c := '!') (by decide)
    exact clear_of_not_mem (not_mem_key key.identifier gap.blank foreign (by decide))
  | containment => exact clear_containment key.identifier gap.blank (by decide)

theorem Comparison.operator_ne_nil (sign : Comparison) : sign.operator ≠ [] := by
  cases sign <;> exact List.cons_ne_nil _ _

/-- Every phrase is read, and as what it says. -/
theorem ofTrimmed?_text (phrase : Phrase) : ofTrimmed? phrase.text = some phrase.predicate := by
  cases phrase with
  | truth key => exact ofTrimmed?_truth key.identifier
  | negation gap key => exact ofTrimmed?_negation key.identifier gap.blank
  | comparison key gap sign value =>
    cases sign with
    | equality => exact ofTrimmed?_equals key.identifier gap.blank value
    | difference => exact ofTrimmed?_differs key.identifier gap.blank value
    | containment => exact ofTrimmed?_contains key.identifier gap.blank value

/-- Which comparison a predicate comes from, and of which key. -/
theorem Comparison.predicate_inj {sign mark : Comparison} {key name : Key} {value rest : List Char}
    (h : sign.predicate (String.ofList key.chars) value =
      mark.predicate (String.ofList name.chars) rest) : sign = mark ∧ key = name := by
  have signs : sign = mark := by
    cases sign <;> cases mark <;> first | rfl | cases h
  subst signs
  have names : String.ofList key.chars = String.ofList name.chars := by
    cases sign with
    | equality => exact (Predicate.equals.inj h).1
    | difference => exact (Predicate.equals.inj (Predicate.not.inj h)).1
    | containment => exact (Predicate.contains.inj h).1
  exact ⟨rfl, Key.ext (String.ofList_injective names)⟩

/-- The predicate tells the form, the key and the operator; the operator tells where the value begins. -/
theorem text_injective : Function.Injective Phrase.text := by
  intro phrase other same
  have read : phrase.predicate = other.predicate := by
    have first := ofTrimmed?_text phrase
    rw [same, ofTrimmed?_text other] at first
    exact (Option.some.inj first).symm
  cases phrase with
  | truth key =>
    cases other with
    | truth name => exact congrArg Phrase.truth (Key.ext same)
    | negation wide name => cases read
    | comparison name wide mark rest => cases mark <;> cases read
  | negation gap key =>
    cases other with
    | truth name => cases read
    | negation wide name =>
      have keys : key = name :=
        Key.ext (String.ofList_injective (Predicate.truthy.inj (Predicate.not.inj read)))
      subst keys
      have gaps : gap = wide := Gap.ext (List.append_cancel_right (List.cons.inj same).2)
      rw [gaps]
    | comparison name wide mark rest => cases mark <;> cases read
  | comparison key gap sign value =>
    cases other with
    | truth name => cases sign <;> cases read
    | negation wide name => cases sign <;> cases read
    | comparison name wide mark rest =>
      obtain ⟨rfl, rfl⟩ := Comparison.predicate_inj read
      have left := splitOnce?_append sign.operator_ne_nil (sign.clear key gap value)
      have right := splitOnce?_append sign.operator_ne_nil (sign.clear key wide rest)
      have parts : (key.chars ++ gap.chars, value) = (key.chars ++ wide.chars, rest) := by
        apply Option.some.inj
        rw [← left, ← right]
        exact congrArg (splitOnce? sign.operator) same
      obtain ⟨front, rfl⟩ := Prod.mk.inj parts
      have gaps : gap = wide := Gap.ext (List.append_cancel_left front)
      rw [gaps]

section converse

variable {text : List Char}

/-- Where a text begins with no white space, there is none before its first part. -/
theorem trim_front {front rest : List Char} (begins : ∀ c ∈ text.head?, Text.isBlank c = false)
    (whole : text = front ++ rest) :
    ∃ gap : Gap, front = Text.trim front ++ gap.chars := by
  obtain ⟨before, after, blank, wide, parts⟩ := Text.exists_trim front
  cases before with
  | nil => exact ⟨⟨after, wide⟩, parts⟩
  | cons c more =>
    have solid := begins c (by rw [whole, parts]; rfl)
    exact Bool.noConfusion (solid.symm.trans (blank c List.mem_cons_self))

/-- Where a text ends with no white space, there is none after its last part. -/
theorem trim_back {front rest : List Char} (ends : ∀ c ∈ text.getLast?, Text.isBlank c = false)
    (whole : text = front ++ rest) : ∃ gap : Gap, rest = gap.chars ++ Text.trim rest := by
  obtain ⟨before, after, blank, wide, parts⟩ := Text.exists_trim rest
  cases last : after.getLast? with
  | none =>
    obtain rfl := List.getLast?_eq_none_iff.1 last
    rw [List.append_nil] at parts
    exact ⟨⟨before, blank⟩, parts⟩
  | some c =>
    have final : text.getLast? = some c := by
      rw [whole, parts, List.getLast?_append, List.getLast?_append, List.getLast?_append, last]
      rfl
    have mem : c ∈ after := List.mem_of_mem_getLast? last
    exact Bool.noConfusion ((ends c final).symm.trans (wide c mem))

/-- A comparison is found only where a key and white space stand before the operator. -/
theorem exists_phrase_of_splitComparison? {value : List Char} {key : String} (sign : Comparison)
    (begins : ∀ c ∈ text.head?, Text.isBlank c = false)
    (h : splitComparison? sign.operator text = some (key, value)) :
    ∃ phrase : Phrase, phrase.text = text := by
  obtain ⟨front, after, split, identifier, -⟩ := exists_of_splitComparison? h
  have whole := eq_append_of_splitOnce? split
  obtain ⟨gap, parts⟩ := trim_front begins whole
  refine ⟨.comparison (.ofIdentifier identifier) gap sign after, ?_⟩
  change Text.trim front ++ gap.chars ++ (sign.operator ++ after) = text
  rw [← parts, whole]

theorem exists_phrase_of_negation? {predicate : Predicate}
    (ends : ∀ c ∈ text.getLast?, Text.isBlank c = false)
    (h : ofTrimmed?.negation? text = some predicate) : ∃ phrase : Phrase, phrase.text = text := by
  unfold ofTrimmed?.negation? at h
  split at h
  · next rest =>
    obtain ⟨identifier, -⟩ := Option.ite_none_right_eq_some.1 h
    obtain ⟨gap, parts⟩ := trim_back ends (List.singleton_append (x := '!')).symm
    refine ⟨.negation gap (.ofIdentifier identifier), ?_⟩
    exact congrArg ('!' :: ·) parts.symm
  · exact absurd h (Option.some_ne_none _).symm

/-- What is read from a text without white space at its ends is written for a phrase. -/
theorem exists_phrase_of_ofTrimmed? {predicate : Predicate}
    (begins : ∀ c ∈ text.head?, Text.isBlank c = false)
    (ends : ∀ c ∈ text.getLast?, Text.isBlank c = false)
    (h : ofTrimmed? text = some predicate) : ∃ phrase : Phrase, phrase.text = text := by
  rcases (Option.orElse_eq_some _ _ _).1 h with contained | ⟨-, h⟩
  · obtain ⟨⟨key, value⟩, found, -⟩ := Option.bind_eq_some_iff.1 contained
    exact exists_phrase_of_splitComparison? .containment begins found
  rcases (Option.orElse_eq_some _ _ _).1 h with different | ⟨-, h⟩
  · obtain ⟨⟨key, value⟩, found, -⟩ := Option.bind_eq_some_iff.1 different
    exact exists_phrase_of_splitComparison? .difference begins found
  rcases (Option.orElse_eq_some _ _ _).1 h with equal | ⟨-, h⟩
  · obtain ⟨⟨key, value⟩, found, -⟩ := Option.bind_eq_some_iff.1 equal
    exact exists_phrase_of_splitComparison? .equality begins found
  rcases (Option.orElse_eq_some _ _ _).1 h with negated | ⟨-, true⟩
  · exact exists_phrase_of_negation? ends negated
  · obtain ⟨identifier, -⟩ := Option.ite_none_right_eq_some.1 true
    exact ⟨.truth (.ofIdentifier identifier), rfl⟩

end converse

/-- Reading accepts an expression if and only if, trimmed, it is written for a phrase, and the result is
what the phrase says, whatever stands in its value. No text is written for two phrases, so that at most
one form applies. -/
theorem parse_eq_ok_iff :
    (∀ (expression : String) (predicate : Predicate), parse expression = .ok predicate ↔
      ∃ phrase : Phrase, phrase.text = Text.trim expression.toList ∧ phrase.predicate = predicate) ∧
    Function.Injective Phrase.text := by
  refine ⟨fun expression predicate => ?_, text_injective⟩
  rw [parse_iff_ofTrimmed?]
  constructor
  · intro found
    obtain ⟨phrase, written⟩ :=
      exists_phrase_of_ofTrimmed? Text.isBlank_head_trim Text.isBlank_getLast_trim found
    rw [← written, ofTrimmed?_text phrase] at found
    exact ⟨phrase, written, Option.some.inj found⟩
  · rintro ⟨phrase, written, rfl⟩
    rw [← written]
    exact ofTrimmed?_text phrase

/-- Only the operator right after the key counts. -/
example : parse "key == \"a == b\"" = .ok (.equals "key" (.string "a == b")) := rfl

end reading

end Predicate
end Workflow
