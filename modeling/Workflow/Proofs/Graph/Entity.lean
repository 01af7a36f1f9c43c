import Mathlib.Data.List.Basic
import Workflow.Graph.Mermaid

/-! Escaped text as it is read again. Ampersands are written as they are: a text with a character
entity of its own comes back as another text, and every other text comes back. -/
namespace Workflow.Graph.Mermaid

/-- The characters of the name of an entity. -/
def isNameChar (c : Char) : Bool :=
  c.isAlphanum || c = '#'

/-- Which names a reader knows: at least those of the characters that are escaped. -/
structure Entities where
  find? : List Char → Option Char
  quot : find? "quot".toList = some '"'
  lt : find? "lt".toList = some '<'
  gt : find? "gt".toList = some '>'

/-- The entities that are written, and no others. -/
def Entities.written : Entities where
  find? name :=
    if name = "quot".toList then some '"'
    else if name = "lt".toList then some '<'
    else if name = "gt".toList then some '>'
    else none
  quot := rfl
  lt := rfl
  gt := rfl

variable {entities : Entities}

/-- An entity at the front of a text, and what follows it. -/
inductive Entities.Begins (entities : Entities) : List Char → Char → List Char → Prop where
  | intro {name rest : List Char} {c : Char} (plain : ∀ char ∈ name, isNameChar char = true)
      (known : entities.find? name = some c) : Begins entities ('&' :: (name ++ ';' :: rest)) c rest

/-- Looks for an entity at the front of a text. -/
def Entities.front? (entities : Entities) : List Char → Option (Char × List Char)
  | [] => none
  | mark :: text =>
    match text.dropWhile isNameChar with
    | ';' :: rest =>
      if mark = '&' then (entities.find? (text.takeWhile isNameChar)).map fun c => (c, rest)
      else none
    | _ => none

theorem Entities.front?_eq_some {text rest : List Char} {c : Char} :
    entities.front? text = some (c, rest) ↔ entities.Begins text c rest := by
  constructor
  · intro found
    cases text with
    | nil => cases found
    | cons mark text =>
      rw [front?] at found
      split at found
      case h_1 after ending =>
        split at found
        case isTrue marked =>
          obtain ⟨d, known, same⟩ := Option.map_eq_some_iff.1 found
          obtain ⟨rfl, rfl⟩ := Prod.mk.inj same
          rw [marked, ← List.takeWhile_append_dropWhile (p := isNameChar) (l := text), ending]
          exact .intro (List.all_eq_true.1 List.all_takeWhile) known
        case isFalse => cases found
      case h_2 => cases found
  · intro begins
    obtain ⟨plain, known⟩ := begins
    rw [front?, List.dropWhile_append_of_pos plain, List.takeWhile_append_of_pos plain]
    simp [isNameChar, known]

theorem Entities.Begins.length_le {text rest : List Char} {c : Char}
    (h : entities.Begins text c rest) : rest.length + 2 ≤ text.length := by
  obtain ⟨plain, known⟩ := h
  simp only [List.length_cons, List.length_append]
  omega

theorem Entities.length_le_of_front? {c d : Char} {rest after : List Char}
    (found : entities.front? (c :: rest) = some (d, after)) : after.length ≤ rest.length := by
  have shorter := (front?_eq_some.1 found).length_le
  rw [List.length_cons] at shorter
  omega

/-- Reads a text left to right, with a character in the place of each entity that is known. -/
def decode (entities : Entities) : List Char → List Char
  | [] => []
  | c :: rest =>
    match found : entities.front? (c :: rest) with
    | some (d, after) =>
      have := Entities.length_le_of_front? found
      d :: decode entities after
    | none => c :: decode entities rest
termination_by text => text.length

@[simp] theorem decode_nil (entities : Entities) : decode entities [] = [] := by
  rw [decode]

theorem decode_of_begins {text rest : List Char} {c : Char} (h : entities.Begins text c rest) :
    decode entities text = c :: decode entities rest := by
  cases text with
  | nil => nomatch h
  | cons mark text =>
    rw [decode]
    split
    case h_1 d after found =>
      obtain ⟨rfl, rfl⟩ := Prod.mk.inj (Option.some.inj
        (found.symm.trans (Entities.front?_eq_some.2 h)))
      rfl
    case h_2 found => exact nomatch found.symm.trans (Entities.front?_eq_some.2 h)

theorem decode_cons {c : Char} {rest : List Char}
    (h : ∀ d after, ¬ entities.Begins (c :: rest) d after) :
    decode entities (c :: rest) = c :: decode entities rest := by
  rw [decode]
  split
  case h_1 d after found => exact absurd (Entities.front?_eq_some.1 found) (h d after)
  case h_2 => rfl

/-- Follows the reader: an entity at the front, or a character that begins none. -/
theorem decode_induction (entities : Entities) {motive : List Char → Prop} (nil : motive [])
    (entity : ∀ text c rest, entities.Begins text c rest → motive rest → motive text)
    (char : ∀ c rest, (∀ d after, ¬ entities.Begins (c :: rest) d after) → motive rest →
      motive (c :: rest)) (text : List Char) : motive text := by
  induction text using decode.induct entities with
  | case1 => exact nil
  | case2 c rest d after found _ ih => exact entity _ d after (Entities.front?_eq_some.1 found) ih
  | case3 c rest found ih =>
    refine char c rest (fun d after begins => ?_) ih
    exact nomatch found.symm.trans (Entities.front?_eq_some.2 begins)

theorem escapeChar_cases (c : Char) :
    (c = '"' ∧ escapeChar c = '&' :: ("quot".toList ++ [';'])) ∨
      (c = '<' ∧ escapeChar c = '&' :: ("lt".toList ++ [';'])) ∨
      (c = '>' ∧ escapeChar c = '&' :: ("gt".toList ++ [';'])) ∨
      ((c ≠ '"' ∧ c ≠ '<' ∧ c ≠ '>') ∧ escapeChar c = [c]) := by
  by_cases quotation : c = '"'
  · exact .inl ⟨quotation, by rw [quotation]; rfl⟩
  by_cases less : c = '<'
  · exact .inr (.inl ⟨less, by rw [less]; rfl⟩)
  by_cases greater : c = '>'
  · exact .inr (.inr (.inl ⟨greater, by rw [greater]; rfl⟩))
  · refine .inr (.inr (.inr ⟨⟨quotation, less, greater⟩, ?_⟩))
    rw [escapeChar, if_neg quotation, if_neg less, if_neg greater]

/-- A character is written as it is, or by an entity for it. -/
theorem begins_or_eq (entities : Entities) (c : Char) :
    (∀ rest, entities.Begins (escapeChar c ++ rest) c rest) ∨
      ((c ≠ '"' ∧ c ≠ '<' ∧ c ≠ '>') ∧ escapeChar c = [c]) := by
  obtain ⟨rfl, eq⟩ | ⟨rfl, eq⟩ | ⟨rfl, eq⟩ | kept := escapeChar_cases c
  · refine .inl fun rest => ?_
    rw [eq]
    exact .intro (List.all_eq_true.1 (by decide)) entities.quot
  · refine .inl fun rest => ?_
    rw [eq]
    exact .intro (List.all_eq_true.1 (by decide)) entities.lt
  · refine .inl fun rest => ?_
    rw [eq]
    exact .intro (List.all_eq_true.1 (by decide)) entities.gt
  · exact .inr kept

theorem escapeChar_of_isNameChar {c : Char} (h : isNameChar c = true) : escapeChar c = [c] := by
  obtain ⟨rfl, -⟩ | ⟨rfl, -⟩ | ⟨rfl, -⟩ | ⟨-, eq⟩ := escapeChar_cases c
  · exact absurd h (by decide)
  · exact absurd h (by decide)
  · exact absurd h (by decide)
  · exact eq

theorem flatMap_reference {name : List Char} (plain : ∀ c ∈ name, isNameChar c = true)
    (rest : List Char) :
    ('&' :: (name ++ ';' :: rest)).flatMap escapeChar =
      '&' :: (name ++ ';' :: rest.flatMap escapeChar) := by
  have kept : name.flatMap escapeChar = name := by
    rw [List.flatMap_congr fun c mem => escapeChar_of_isNameChar (plain c mem)]
    exact List.flatMap_singleton' name
  rw [List.flatMap_cons, List.flatMap_append, List.flatMap_cons, kept]
  rfl

/-- Nothing but an ampersand of the text, or of an entity that is written, begins with one. -/
theorem exists_of_flatMap_eq_append {front text after : List Char} (unmarked : '&' ∉ front)
    (h : text.flatMap escapeChar = front ++ after) : ∃ rest, text = front ++ rest := by
  induction front generalizing text with
  | nil => exact ⟨text, rfl⟩
  | cons c front ih =>
    obtain ⟨other, others⟩ := not_or.1 (mt List.mem_cons.2 unmarked)
    cases text with
    | nil => simp at h
    | cons d text =>
      rw [List.flatMap_cons] at h
      obtain ⟨-, eq⟩ | ⟨-, eq⟩ | ⟨-, eq⟩ | ⟨-, eq⟩ := escapeChar_cases d
      all_goals
        rw [eq] at h
        obtain ⟨first, following⟩ := List.cons.inj h
      · exact absurd first other
      · exact absurd first other
      · exact absurd first other
      · obtain ⟨rest, rfl⟩ := ih others following
        exact ⟨rest, by rw [first, List.cons_append]⟩

theorem Entities.Begins.of_flatMap {c d : Char} {text after : List Char}
    (h : entities.Begins (c :: text.flatMap escapeChar) d after) :
    ∃ rest, entities.Begins (c :: text) d rest := by
  generalize same : c :: text.flatMap escapeChar = written at h
  cases h with
  | @intro name after _ plain known =>
    obtain ⟨rfl, named⟩ := List.cons.inj same
    have unmarked : '&' ∉ name ++ [';'] := by
      rw [List.mem_append, not_or]
      exact ⟨fun mem => absurd (plain _ mem) (by decide), by decide⟩
    rw [List.append_cons] at named
    obtain ⟨rest, rfl⟩ := exists_of_flatMap_eq_append unmarked named
    rw [List.append_assoc]
    exact ⟨rest, .intro plain known⟩

/-- What is read is the text with its own entities read too. -/
theorem decode_flatMap (entities : Entities) (text : List Char) :
    decode entities (text.flatMap escapeChar) = decode entities text := by
  induction text using decode_induction entities with
  | nil => rfl
  | entity text c rest begins ih =>
    rw [decode_of_begins begins]
    obtain ⟨plain, known⟩ := begins
    rw [flatMap_reference plain, decode_of_begins (.intro plain known), ih]
  | char c rest none ih =>
    rw [List.flatMap_cons, decode_cons none]
    obtain entity | ⟨-, eq⟩ := begins_or_eq entities c
    · rw [decode_of_begins (entity _), ih]
    · rw [eq, List.singleton_append, decode_cons, ih]
      -- An entity that begins with this character would be one of the text.
      intro d after begins
      obtain ⟨rest, begins⟩ := begins.of_flatMap
      exact none d rest begins

theorem length_decode_le (entities : Entities) (text : List Char) :
    (decode entities text).length ≤ text.length := by
  induction text using decode_induction entities with
  | nil => simp
  | entity text c rest begins ih =>
    have shorter := begins.length_le
    rw [decode_of_begins begins, List.length_cons]
    omega
  | char c rest none ih =>
    rw [decode_cons none, List.length_cons, List.length_cons]
    omega

/-- Whether an entity stands somewhere in a text. -/
def Refers (entities : Entities) (text : List Char) : Prop :=
  ∃ tail, tail <:+ text ∧ ∃ c rest, entities.Begins tail c rest

theorem refers_cons {c : Char} {rest : List Char}
    (none : ∀ d after, ¬ entities.Begins (c :: rest) d after) :
    Refers entities (c :: rest) ↔ Refers entities rest := by
  constructor
  · rintro ⟨tail, suffix, d, after, begins⟩
    rcases List.suffix_cons_iff.1 suffix with rfl | suffix
    · exact absurd begins (none d after)
    · exact ⟨tail, suffix, d, after, begins⟩
  · rintro ⟨tail, suffix, found⟩
    exact ⟨tail, List.suffix_cons_iff.2 (.inr suffix), found⟩

theorem decode_eq_self_iff {text : List Char} :
    decode entities text = text ↔ ¬ Refers entities text := by
  induction text using decode_induction entities with
  | nil =>
    refine iff_of_true (decode_nil entities) ?_
    rintro ⟨tail, suffix, c, rest, begins⟩
    rw [List.suffix_nil.1 suffix] at begins
    nomatch begins
  | entity text c rest begins ih =>
    refine iff_of_false (fun same => ?_) (not_not.2 ⟨text, List.suffix_rfl, c, rest, begins⟩)
    have shorter := begins.length_le
    have lengths := congrArg List.length (decode_of_begins begins ▸ same)
    have least := length_decode_le entities rest
    rw [List.length_cons] at lengths
    omega
  | char c rest none ih =>
    rw [decode_cons none, refers_cons none, List.cons_inj_right, ih]

theorem escapeChar_of_written {name : List Char} {c : Char}
    (known : Entities.written.find? name = some c) : escapeChar c = '&' :: (name ++ [';']) := by
  simp only [Entities.written] at known
  split at known
  case isTrue same => rw [same, ← Option.some.inj known]; rfl
  split at known
  case isTrue same => rw [same, ← Option.some.inj known]; rfl
  split at known
  case isTrue same => rw [same, ← Option.some.inj known]; rfl
  case isFalse => nomatch known

/-- An entity and the character that it is written for are written alike. -/
theorem flatMap_decode (text : List Char) :
    (decode .written text).flatMap escapeChar = text.flatMap escapeChar := by
  induction text using decode_induction .written with
  | nil => simp
  | entity text c rest begins ih =>
    rw [decode_of_begins begins]
    obtain ⟨plain, known⟩ := begins
    rw [flatMap_reference plain, List.flatMap_cons, ih, escapeChar_of_written known]
    simp
  | char c rest none ih => rw [decode_cons none, List.flatMap_cons, ih, List.flatMap_cons]

theorem toList_escape (text : String) : (escape text).toList = text.toList.flatMap escapeChar := by
  rw [escape, String.toList_ofList]

/-- Texts are written alike if they differ only by an entity in the place of its character. -/
theorem escape_eq_iff {first second : String} :
    escape first = escape second ↔
      decode .written first.toList = decode .written second.toList := by
  rw [← String.toList_inj, toList_escape, toList_escape]
  constructor
  · intro same
    rw [← decode_flatMap, same, decode_flatMap]
  · intro same
    rw [← flatMap_decode, same, flatMap_decode]

/-- Stands for a text in a label. -/
structure Shows (label text : String) : Prop where
  /-- Nothing in it ends the label or begins another line of it. -/
  closed : ∀ mark ∈ ['"', '<', '>'], mark ∉ label.toList
  read : ∀ entities, decode entities label.toList = decode entities text.toList
  faithful : ∀ entities,
    decode entities label.toList = text.toList ↔ ¬ Refers entities text.toList

theorem not_mem_escape {mark : Char} (h : mark ∈ ['"', '<', '>']) (text : String) :
    mark ∉ (escape text).toList := by
  rw [toList_escape, List.mem_flatMap]
  rintro ⟨c, -, mem⟩
  have marks : mark = '"' ∨ mark = '<' ∨ mark = '>' := by simpa using h
  obtain ⟨-, eq⟩ | ⟨-, eq⟩ | ⟨-, eq⟩ | ⟨⟨quotation, less, greater⟩, eq⟩ := escapeChar_cases c
  all_goals rw [eq] at mem
  · rcases marks with rfl | rfl | rfl <;> exact absurd mem (by decide)
  · rcases marks with rfl | rfl | rfl <;> exact absurd mem (by decide)
  · rcases marks with rfl | rfl | rfl <;> exact absurd mem (by decide)
  · obtain rfl := List.mem_singleton.1 mem
    exact marks.elim quotation (·.elim less greater)

theorem shows_escape (text : String) : Shows (escape text) text where
  closed _ mem := not_mem_escape mem text
  read entities := by rw [toList_escape, decode_flatMap]
  faithful entities := by rw [toList_escape, decode_flatMap, decode_eq_self_iff]

theorem newline_mem_escape {text : String} :
    '\n' ∈ (escape text).toList ↔ '\n' ∈ text.toList := by
  have alone (c : Char) : '\n' ∈ escapeChar c ↔ c = '\n' := by
    obtain ⟨rfl, eq⟩ | ⟨rfl, eq⟩ | ⟨rfl, eq⟩ | ⟨-, eq⟩ := escapeChar_cases c
    all_goals rw [eq]
    · decide
    · decide
    · decide
    · rw [List.mem_singleton, eq_comm]
  rw [toList_escape, List.mem_flatMap]
  simp only [alone, exists_eq_right]

end Workflow.Graph.Mermaid
