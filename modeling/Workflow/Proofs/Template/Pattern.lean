import Mathlib.Data.List.TakeDrop
import Workflow.Template

/-!
Patterns over characters, with the leftmost match and at one place the first in order of preference.
The scanner of instructions finds the matches of one pattern.
-/
namespace Workflow.Template

/-- What a text may begin with. Of the two alternatives the first is preferred; a repeated character
and an optional part are taken as far as they go. A group remembers what it has taken. -/
inductive Pattern where
  | one (test : Char → Bool)
  | many (test : Char → Bool)
  | both (first second : Pattern)
  | either (first second : Pattern)
  | maybe (body : Pattern)
  | group (index : Nat) (body : Pattern)

/-- A beginning of a text that a pattern has taken, and what follows it. -/
structure Match where
  taken : List Char
  groups : List (Nat × List Char)
  rest : List Char

/-- The empty match. -/
def Match.none (text : List Char) : Match :=
  ⟨[], [], text⟩

/-- A match and another one behind it. -/
def Match.andThen (first second : Match) : Match :=
  ⟨first.taken ++ second.taken, first.groups ++ second.groups, second.rest⟩

/-- A character repeated as often as possible, then once less, and so on. -/
def repetitions (test : Char → Bool) : List Char → List Match
  | [] => [.none []]
  | c :: rest =>
    if test c then
      (repetitions test rest).map (Match.andThen ⟨[c], [], rest⟩) ++ [.none (c :: rest)]
    else [.none (c :: rest)]

/-- The matches at the beginning of a text in order of preference. -/
def Pattern.candidates : Pattern → List Char → List Match
  | .one _, [] => []
  | .one test, c :: rest => if test c then [⟨[c], [], rest⟩] else []
  | .many test, text => repetitions test text
  | .both first second, text =>
    (first.candidates text).flatMap fun found => (second.candidates found.rest).map found.andThen
  | .either first second, text => first.candidates text ++ second.candidates text
  | .maybe body, text => body.candidates text ++ [.none text]
  | .group index body, text =>
    (body.candidates text).map fun found =>
      { found with groups := (index, found.taken) :: found.groups }

/-- The matches one after another, each at the first place where there is one after the first `skip`
characters and after the match before. -/
def Pattern.findAll (pattern : Pattern) : Nat → List Char → List Match
  | _, [] => []
  | skip + 1, _ :: rest => pattern.findAll skip rest
  | 0, c :: rest =>
    match (pattern.candidates (c :: rest)).head? with
    | some found => found :: pattern.findAll (found.taken.length - 1) rest
    | none => pattern.findAll 0 rest

namespace Pattern

def char (c : Char) : Pattern :=
  one (· == c)

def name : Pattern :=
  both (one isNameStart) (many isNameChar)

/-- A colon and a second name, if they are there. -/
def extension : Pattern :=
  maybe (both (char ':') name)

/-- A name, or two with a colon between them. -/
def key : Pattern :=
  both name extension

def ending : Pattern :=
  both (maybe (group 2 (char '?'))) (char '}')

def reference : Pattern :=
  both (char '{') (both (group 1 key) ending)

/-- A doubled brace, or a reference to a key. -/
def brace : Pattern :=
  either (both (char '{') (char '{')) (either (both (char '}') (char '}')) reference)

end Pattern

/-- The key is in the first group, and it is optional if there is a second one. -/
def Match.placeholder? (found : Match) : Option Placeholder :=
  (found.groups.lookup 1).map fun key => ⟨String.ofList key, (found.groups.lookup 2).isSome⟩

/-- The first match is the given one, and all others stop in front of a character of a class. -/
def IsFirst (test : Char → Bool) (found : Match) (candidates : List Match) : Prop :=
  ∃ others, candidates = found :: others ∧
    ∀ other ∈ others, ∃ c rest, other.rest = c :: rest ∧ test c = true

theorem isFirst_repetitions (test : Char → Bool) (text : List Char) :
    IsFirst test ⟨text.takeWhile test, [], text.dropWhile test⟩ (repetitions test text) := by
  induction text with
  | nil => exact ⟨[], rfl, by simp⟩
  | cons c rest ih =>
    obtain ⟨shorter, eq, stops⟩ := ih
    by_cases more : test c = true
    · refine ⟨shorter.map (Match.andThen ⟨[c], [], rest⟩) ++ [.none (c :: rest)], ?_, ?_⟩
      · simp [repetitions, more, eq, Match.andThen]
      · intro other mem
        rcases List.mem_append.1 mem with longer | last
        · obtain ⟨before, among, rfl⟩ := List.mem_map.1 longer
          exact stops before among
        · obtain rfl := List.mem_singleton.1 last
          exact ⟨c, rest, rfl, more⟩
    · exact ⟨[], by simp [repetitions, more, Match.none], by simp⟩

/-- If the second part cannot begin where the other matches of the first part stop, then only the first
match counts. -/
theorem IsFirst.candidates_both {test : Char → Bool} {found : Match} {first second : Pattern}
    {text : List Char} (h : IsFirst test found (first.candidates text))
    (stuck : ∀ c rest, test c = true → second.candidates (c :: rest) = []) :
    (Pattern.both first second).candidates text =
      (second.candidates found.rest).map found.andThen := by
  obtain ⟨others, eq, stops⟩ := h
  have nothing : (others.flatMap fun other => (second.candidates other.rest).map other.andThen) =
      [] := by
    refine List.flatMap_eq_nil_iff.2 fun other mem => ?_
    obtain ⟨c, rest, at_, holds⟩ := stops other mem
    rw [at_, stuck c rest holds, List.map_nil]
  rw [Pattern.candidates, eq, List.flatMap_cons, nothing, List.append_nil]

namespace Pattern

theorem candidates_char (c d : Char) (rest : List Char) :
    (char c).candidates (d :: rest) = if d = c then [⟨[d], [], rest⟩] else [] := by
  simp [char, candidates]

theorem isNameChar_of_isNameStart {c : Char} (h : isNameStart c = true) : isNameChar c = true := by
  simp only [isNameStart, isNameChar, Char.isAlphanum, Bool.or_eq_true] at h ⊢
  tauto

theorem isFirst_name {text taken rest : List Char} (h : name? text = some (taken, rest)) :
    IsFirst isNameChar ⟨taken, [], rest⟩ (name.candidates text) := by
  cases text with
  | nil => simp [name?] at h
  | cons c more =>
    simp only [name?, Option.ite_none_right_eq_some, Option.some.injEq] at h
    obtain ⟨start, eq⟩ := h
    rw [List.span_eq_takeWhile_dropWhile, List.takeWhile_cons_of_pos (isNameChar_of_isNameStart start),
      List.dropWhile_cons_of_pos (isNameChar_of_isNameStart start)] at eq
    obtain ⟨rfl, rfl⟩ := Prod.mk.inj eq
    obtain ⟨others, eq, stops⟩ := isFirst_repetitions isNameChar more
    refine ⟨others.map (Match.andThen ⟨[c], [], more⟩), ?_, ?_⟩
    · simp [name, candidates, start, eq, Match.andThen]
    · intro other mem
      obtain ⟨before, among, rfl⟩ := List.mem_map.1 mem
      exact stops before among

theorem candidates_name_eq_nil {text : List Char} (h : name? text = none) :
    name.candidates text = [] := by
  cases text with
  | nil => rfl
  | cons c rest =>
    have start : isNameStart c = false := by simpa [name?] using h
    simp [name, candidates, start]

theorem candidates_char_both (c : Char) (second : Pattern) (d : Char) (rest : List Char) :
    (both (char c) second).candidates (d :: rest) =
      if d = c then (second.candidates rest).map (Match.andThen ⟨[d], [], rest⟩) else [] := by
  rw [candidates, candidates_char]
  split <;> simp

theorem candidates_extension_of_ne {c : Char} (h : c ≠ ':') (rest : List Char) :
    extension.candidates (c :: rest) = [.none (c :: rest)] := by
  rw [extension, candidates, candidates_char_both, if_neg h, List.nil_append]

theorem candidates_extension_colon (rest : List Char) :
    extension.candidates (':' :: rest) =
      (name.candidates rest).map (Match.andThen ⟨[':'], [], rest⟩) ++ [.none (':' :: rest)] := by
  rw [extension, candidates, candidates_char_both, if_pos rfl]

theorem ne_colon_of_isNameChar {c : Char} (h : isNameChar c = true) : c ≠ ':' := by
  rintro rfl
  revert h
  decide

def isKeyChar (c : Char) : Bool :=
  isNameChar c || c == ':'

/-- The colon and the second name at the beginning of a text, or nothing, and what follows. -/
def second (text : List Char) : List Char × List Char :=
  match text with
  | ':' :: more =>
    match name? more with
    | some (name, rest) => (':' :: name, rest)
    | none => ([], text)
  | _ => ([], text)

theorem key?_eq (text : List Char) :
    key? text = (name? text).map fun (first, rest) =>
      (first ++ (second rest).1, (second rest).2) := by
  refine congrArg (Option.map · (name? text)) (funext fun (first, behind) => ?_)
  match behind with
  | [] => simp [second]
  | c :: more =>
    by_cases colon : c = ':'
    · subst colon
      cases name_ : name? more <;> simp [second, name_]
    · simp [second, colon]

theorem isFirst_extension (text : List Char) :
    IsFirst isKeyChar ⟨(second text).1, [], (second text).2⟩ (extension.candidates text) := by
  have alone (h : extension.candidates text = [.none text]) (same : second text = ([], text)) :
      IsFirst isKeyChar ⟨(second text).1, [], (second text).2⟩ (extension.candidates text) :=
    ⟨[], by rw [h, same]; rfl, by simp⟩
  match text with
  | [] => exact alone rfl rfl
  | c :: more =>
    by_cases colon : c = ':'
    · subst colon
      cases name_ : name? more with
      | none =>
        refine alone ?_ (by simp [second, name_])
        rw [candidates_extension_colon, candidates_name_eq_nil name_]
        rfl
      | some found =>
        obtain ⟨others, eq, stops⟩ := isFirst_name name_
        refine ⟨others.map (Match.andThen ⟨[':'], [], more⟩) ++ [.none (':' :: more)], ?_, ?_⟩
        · simp [candidates_extension_colon, eq, second, name_, Match.andThen]
        · intro other mem
          rcases List.mem_append.1 mem with longer | last
          · obtain ⟨before, among, rfl⟩ := List.mem_map.1 longer
            obtain ⟨c, rest, at_, char⟩ := stops before among
            exact ⟨c, rest, at_, by simp [isKeyChar, char]⟩
          · obtain rfl := List.mem_singleton.1 last
            exact ⟨':', more, rfl, rfl⟩
    · refine alone (candidates_extension_of_ne colon more) ?_
      unfold second
      split
      · simp_all
      · rfl

theorem isFirst_key {text taken rest : List Char} (h : key? text = some (taken, rest)) :
    IsFirst isKeyChar ⟨taken, [], rest⟩ (key.candidates text) := by
  rw [key?_eq] at h
  obtain ⟨⟨first, behind⟩, name_, eq⟩ := Option.map_eq_some_iff.1 h
  obtain ⟨rfl, rfl⟩ := Prod.mk.inj eq
  obtain ⟨shorter, names, stops⟩ := isFirst_name name_
  obtain ⟨others, extensions, ends⟩ := isFirst_extension behind
  refine ⟨others.map (Match.andThen ⟨first, [], behind⟩) ++
    shorter.flatMap fun found => (extension.candidates found.rest).map found.andThen, ?_, ?_⟩
  · simp [key, candidates, names, extensions, Match.andThen]
  · intro other mem
    rcases List.mem_append.1 mem with longest | cut
    · obtain ⟨before, among, rfl⟩ := List.mem_map.1 longest
      exact ends before among
    · -- A name that could have been longer is followed by one of its characters, not by a colon.
      obtain ⟨found, among, inside⟩ := List.mem_flatMap.1 cut
      obtain ⟨c, more, at_, char⟩ := stops found among
      rw [at_, candidates_extension_of_ne (ne_colon_of_isNameChar char)] at inside
      obtain rfl := List.mem_singleton.1 inside
      exact ⟨c, more, rfl, by simp [isKeyChar, char]⟩

theorem candidates_key_eq_nil {text : List Char} (h : key? text = none) :
    key.candidates text = [] := by
  rw [key?_eq, Option.map_eq_none_iff] at h
  simp [key, candidates, candidates_name_eq_nil h]

theorem candidates_ending (c : Char) (rest : List Char) :
    ending.candidates (c :: rest) =
      (if c = '?' then
        ((char '}').candidates rest).map (Match.andThen ⟨['?'], [(2, ['?'])], rest⟩) else []) ++
      if c = '}' then [⟨['}'], [], rest⟩] else [] := by
  have option : (maybe (group 2 (char '?'))).candidates (c :: rest) =
      (if c = '?' then [⟨['?'], [(2, ['?'])], rest⟩] else []) ++ [.none (c :: rest)] := by
    rw [candidates, candidates, candidates_char]
    split <;> simp_all
  rw [ending, candidates, option]
  split <;> split <;> simp_all [candidates_char, Match.none, Match.andThen]

theorem candidates_ending_of_isKeyChar {c : Char} (h : isKeyChar c = true) (rest : List Char) :
    ending.candidates (c :: rest) = [] := by
  have mark : c ≠ '?' := by
    rintro rfl
    exact absurd h (by decide)
  have brace : c ≠ '}' := by
    rintro rfl
    exact absurd h (by decide)
  rw [candidates_ending, if_neg mark, if_neg brace, List.append_nil]

theorem candidates_ending_eq_nil {text : List Char} (closed : ∀ more, text ≠ '}' :: more)
    (marked : ∀ more, text ≠ '?' :: '}' :: more) : ending.candidates text = [] := by
  match text with
  | [] => rfl
  | c :: more =>
    have unclosed : c ≠ '}' := fun eq => closed more (by rw [eq])
    have unmarked : c = '?' → (char '}').candidates more = [] := by
      rintro rfl
      match more with
      | [] => rfl
      | d :: rest =>
        rw [candidates_char, if_neg fun eq => marked rest (by rw [eq])]
    rw [candidates_ending, if_neg unclosed, List.append_nil]
    split
    · next mark => rw [unmarked mark, List.map_nil]
    · rfl

theorem candidates_reference (rest : List Char) :
    reference.candidates ('{' :: rest) =
      ((both (group 1 key) ending).candidates rest).map (Match.andThen ⟨['{'], [], rest⟩) := by
  rw [reference, candidates_char_both, if_pos rfl]

theorem candidates_body {text taken behind : List Char} (h : key? text = some (taken, behind)) :
    (both (group 1 key) ending).candidates text =
      (ending.candidates behind).map (Match.andThen ⟨taken, [(1, taken)], behind⟩) := by
  have first : IsFirst isKeyChar ⟨taken, [(1, taken)], behind⟩ ((group 1 key).candidates text) := by
    obtain ⟨others, eq, stops⟩ := isFirst_key h
    refine ⟨_, by rw [candidates, eq]; rfl, fun other mem => ?_⟩
    obtain ⟨before, among, rfl⟩ := List.mem_map.1 mem
    exact stops before among
  exact first.candidates_both fun c more char => candidates_ending_of_isKeyChar char more

/-- The placeholder behind an opening brace is the only match there. -/
theorem exists_candidates_reference {rest : List Char} {placeholder : Placeholder} {length : Nat}
    (h : placeholder? rest = some (placeholder, length)) :
    ∃ found, reference.candidates ('{' :: rest) = [found] ∧
      found.placeholder? = some placeholder ∧ found.taken.length = length + 1 := by
  obtain ⟨⟨taken, behind⟩, key_, ends⟩ := Option.bind_eq_some_iff.1 h
  rw [candidates_reference, candidates_body key_]
  dsimp only at ends ⊢
  split at ends
  · obtain ⟨rfl, rfl⟩ := Prod.mk.inj (Option.some.inj ends)
    simp [candidates_ending, Match.andThen, Match.placeholder?]
  · obtain ⟨rfl, rfl⟩ := Prod.mk.inj (Option.some.inj ends)
    simp [candidates_ending, candidates_char, Match.andThen, Match.placeholder?]
  · cases ends

theorem candidates_reference_eq_nil {rest : List Char} (h : placeholder? rest = none) :
    reference.candidates ('{' :: rest) = [] := by
  rw [candidates_reference, List.map_eq_nil_iff]
  cases key_ : key? rest with
  | none => simp [candidates, candidates_key_eq_nil key_]
  | some found =>
    obtain ⟨taken, behind⟩ := found
    rw [candidates_body key_, List.map_eq_nil_iff]
    simp only [placeholder?, key_, Option.bind_some] at h
    split at h
    · cases h
    · cases h
    · next closed marked => exact candidates_ending_eq_nil closed marked

/-- A doubled brace is preferred, and a placeholder begins with a brace that is not doubled. -/
theorem head?_candidates_brace (c : Char) (rest : List Char) :
    (brace.candidates (c :: rest)).head? =
      if (c = '{' ∨ c = '}') ∧ rest.head? = some c then some ⟨[c, c], [], rest.tail⟩
      else if c = '{' then (reference.candidates (c :: rest)).head? else none := by
  have twice (d : Char) : (both (char d) (char d)).candidates (c :: rest) =
      if c = d ∧ rest.head? = some d then [⟨[c, d], [], rest.tail⟩] else [] := by
    rw [candidates_char_both]
    match rest with
    | [] => by_cases eq : c = d <;> simp [eq, char, candidates]
    | e :: more =>
      rw [candidates_char]
      by_cases eq : c = d <;> by_cases eq' : e = d <;> simp [eq, eq', Match.andThen]
  have other (h : c ≠ '{') : reference.candidates (c :: rest) = [] := by
    rw [reference, candidates_char_both, if_neg h]
  have parts : brace.candidates (c :: rest) =
      (both (char '{') (char '{')).candidates (c :: rest) ++
        ((both (char '}') (char '}')).candidates (c :: rest) ++
          reference.candidates (c :: rest)) := rfl
  rw [parts, twice, twice]
  by_cases opens : c = '{'
  · subst opens
    by_cases doubled : rest.head? = some '{' <;> simp [doubled]
  · rw [other opens]
    by_cases closes : c = '}'
    · subst closes
      by_cases doubled : rest.head? = some '}' <;> simp [doubled]
    · simp [opens, closes]

end Pattern

/-- The scanner finds what the pattern captures. -/
theorem scan_eq_findAll (skip : Nat) (text : List Char) :
    scan skip text = (Pattern.brace.findAll skip text).filterMap Match.placeholder? := by
  induction text generalizing skip with
  | nil => cases skip <;> rfl
  | cons c rest ih =>
    match skip with
    | skip + 1 => exact ih skip
    | 0 =>
      rw [scan, Pattern.findAll, Pattern.head?_candidates_brace]
      by_cases doubled : (c = '{' ∨ c = '}') ∧ rest.head? = some c
      · simp only [if_pos doubled]
        exact ih 1
      · simp only [if_neg doubled]
        by_cases opens : c = '{'
        · subst opens
          simp only [if_pos]
          cases found_ : placeholder? rest with
          | none =>
            rw [Pattern.candidates_reference_eq_nil found_]
            exact ih 0
          | some found =>
            obtain ⟨placeholder, length⟩ := found
            obtain ⟨only, eq, captured, taken⟩ := Pattern.exists_candidates_reference found_
            rw [eq]
            simp [captured, taken, ih]
        · simp only [if_neg opens]
          exact ih 0

end Workflow.Template
