import Mathlib.Data.List.Basic
import Workflow.Proofs.Template.Pattern

/-! Templates put together from literal text and references: scanning finds the references again. -/
namespace Workflow.Template

def IsName (text : List Char) : Prop :=
  ∃ c rest, text = c :: rest ∧ isNameStart c = true ∧ ∀ d ∈ rest, isNameChar d = true

/-- A name, or two with a colon between them. -/
inductive IsKey : List Char → Prop
  | single {name : List Char} : IsName name → IsKey name
  | qualified {first second : List Char} : IsName first → IsName second → IsKey (first ++ ':' :: second)

/-- A piece of a template. -/
inductive Segment where
  | literal (text : String)
  | reference (placeholder : Placeholder) (isKey : IsKey placeholder.key.toList)

/-- Braces of literal text are doubled. -/
def double (c : Char) : List Char :=
  if c = '{' ∨ c = '}' then [c, c] else [c]

/-- How a reference ends. -/
def ending (optional : Bool) : List Char :=
  if optional then ['?', '}'] else ['}']

namespace Segment

def render : Segment → List Char
  | literal text => text.toList.flatMap double
  | reference placeholder _ => '{' :: placeholder.key.toList ++ ending placeholder.optional

def placeholder? : Segment → Option Placeholder
  | literal _ => none
  | reference placeholder _ => some placeholder

/-- The key of a reference that is not optional. -/
def requiredKey? : Segment → Option String
  | literal _ => none
  | reference placeholder _ => if placeholder.optional then none else some placeholder.key

end Segment

/-- The template made of some segments. -/
def render (segments : List Segment) : String :=
  String.ofList (segments.flatMap Segment.render)

theorem scan_drop (length : Nat) (text rest : List Char) (h : text.length = length) :
    scan length (text ++ rest) = scan 0 rest := by
  induction text generalizing length with
  | nil =>
    obtain rfl : 0 = length := h
    rfl
  | cons c text ih =>
    subst h
    exact ih _ rfl

theorem scan_double (c : Char) (rest : List Char) : scan 0 (double c ++ rest) = scan 0 rest := by
  by_cases brace : c = '{' ∨ c = '}'
  · rw [double, if_pos brace]
    have doubled : (c = '{' ∨ c = '}') ∧ (c :: rest).head? = some c := ⟨brace, rfl⟩
    rw [List.cons_append, List.cons_append, List.nil_append, scan, if_pos doubled, scan]
  · have single : ¬ ((c = '{' ∨ c = '}') ∧ rest.head? = some c) := fun h => brace h.1
    rw [double, if_neg brace, List.cons_append, List.nil_append, scan, if_neg single,
      if_neg fun opens => brace (.inl opens)]

theorem scan_literal (text rest : List Char) :
    scan 0 (text.flatMap double ++ rest) = scan 0 rest := by
  induction text with
  | nil => rfl
  | cons c text ih => rw [List.flatMap_cons, List.append_assoc, scan_double, ih]

/-- A name goes on as long as it can. -/
theorem name?_append {name : List Char} (h : IsName name) {c : Char} (ends : isNameChar c = false)
    (rest : List Char) : name? (name ++ c :: rest) = some (name, c :: rest) := by
  obtain ⟨d, more, rfl, start, chars⟩ := h
  have all : ∀ e ∈ d :: more, isNameChar e = true := by
    intro e mem
    rcases List.mem_cons.1 mem with rfl | among
    · exact Pattern.isNameChar_of_isNameStart start
    · exact chars e among
  rw [List.cons_append, name?, if_pos start, ← List.cons_append, List.span_eq_takeWhile_dropWhile,
    List.takeWhile_append_of_pos all, List.dropWhile_append_of_pos all,
    List.takeWhile_cons_of_neg (by simp [ends]), List.dropWhile_cons_of_neg (by simp [ends]),
    List.append_nil]

theorem key?_append {key : List Char} (h : IsKey key) {c : Char} (ends : isNameChar c = false)
    (apart : c ≠ ':') (rest : List Char) : key? (key ++ c :: rest) = some (key, c :: rest) := by
  cases h with
  | single name => simp [key?, name?_append name ends, apart]
  | @qualified first second name name' =>
    rw [List.append_assoc, List.cons_append, key?, name?_append name (by decide)]
    simp [name?_append name' ends]

theorem exists_isNameStart {key : List Char} (h : IsKey key) :
    ∃ c rest, key = c :: rest ∧ isNameStart c = true := by
  cases h with
  | single name =>
    obtain ⟨c, rest, rfl, start, -⟩ := name
    exact ⟨c, rest, rfl, start⟩
  | qualified name =>
    obtain ⟨c, rest, rfl, start, -⟩ := name
    exact ⟨c, _, rfl, start⟩

theorem placeholder?_append {key : List Char} (h : IsKey key) (optional : Bool)
    (rest : List Char) :
    placeholder? (key ++ ending optional ++ rest) =
      some (⟨String.ofList key, optional⟩, (key ++ ending optional).length) := by
  cases optional with
  | false => simp [placeholder?, ending, key?_append h (c := '}') (by decide) (by decide)]
  | true => simp [placeholder?, ending, key?_append h (c := '?') (by decide) (by decide)]

theorem scan_opening {rest : List Char} {placeholder : Placeholder} {length : Nat}
    (single : rest.head? ≠ some '{') (h : placeholder? rest = some (placeholder, length)) :
    scan 0 ('{' :: rest) = placeholder :: scan length rest := by
  rw [scan, if_neg fun doubled => single doubled.2, if_pos rfl, h]

/-- The brace of a reference is not doubled by its key, and the scan goes on behind the reference. -/
theorem scan_reference (placeholder : Placeholder) (isKey : IsKey placeholder.key.toList)
    (rest : List Char) :
    scan 0 ((Segment.reference placeholder isKey).render ++ rest) = placeholder :: scan 0 rest := by
  have found := placeholder?_append isKey placeholder.optional rest
  rw [String.ofList_toList] at found
  have single : (placeholder.key.toList ++ ending placeholder.optional ++ rest).head? ≠ some '{' := by
    obtain ⟨c, more, eq, start⟩ := exists_isNameStart isKey
    rw [eq]
    rintro ⟨⟩
    exact absurd start (by decide)
  rw [Segment.render, List.cons_append, List.cons_append, scan_opening single found,
    scan_drop _ _ _ rfl]

theorem scan_render (segments : List Segment) :
    scan 0 (segments.flatMap Segment.render) = segments.filterMap Segment.placeholder? := by
  induction segments with
  | nil => rfl
  | cons segment segments ih =>
    rw [List.flatMap_cons]
    cases segment with
    | literal text =>
      rw [Segment.render, scan_literal, ih]
      rfl
    | reference placeholder isKey =>
      rw [scan_reference, ih]
      rfl

/-- The placeholders of an instruction are the leftmost matches of the pattern, and of a template that
is put together from literal text and references they are its references in order. -/
theorem placeholders_render :
    (∀ text, placeholders text =
      (Pattern.brace.findAll 0 text.toList).filterMap Match.placeholder?) ∧
    ∀ segments : List Segment,
      placeholders (render segments) = segments.filterMap Segment.placeholder? ∧
        requiredKeys (render segments) = segments.filterMap Segment.requiredKey? := by
  refine ⟨fun text => scan_eq_findAll 0 text.toList, fun segments => ?_⟩
  have found : placeholders (render segments) = segments.filterMap Segment.placeholder? := by
    rw [placeholders, render, String.toList_ofList, scan_render]
  refine ⟨found, ?_⟩
  rw [requiredKeys, found, List.filter_filterMap, List.map_filterMap]
  refine List.filterMap_congr fun segment _ => ?_
  cases segment with
  | literal text => rfl
  | reference placeholder isKey =>
    cases marked : placeholder.optional <;>
      simp [Segment.placeholder?, Segment.requiredKey?, marked, Option.filter]

/-- Braces of literal text may touch those of a reference. -/
example : placeholders "{{{topic}}} {style?}" = [⟨"topic", false⟩, ⟨"style", true⟩] := by decide

end Workflow.Template
