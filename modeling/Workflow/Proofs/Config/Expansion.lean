import Mathlib.Data.List.Basic
import Workflow.Config.Environment

/-!
References to environment variables: which stretches of a text are replaced and by what. A reference that
is never closed is taken for one that ends with the text, and gets a closing brace.
-/
namespace Workflow.Environment

/-- A name as a reference to it is written. -/
def written (name : List Char) : List Char :=
  '$' :: '{' :: (name ++ ['}'])

/-- The value of a variable, or the reference as it is written if there is none. -/
def replacement (value : String → Option String) (name : List Char) : List Char :=
  (value (String.ofList name)).elim (written name) String.toList

/-- The text begins with a reference: there is a closing brace somewhere behind its opening. -/
def BeginsReference (text : List Char) : Prop :=
  ∃ rest, text = '$' :: '{' :: rest ∧ '}' ∈ rest

/-- A text with the names it refers to and what becomes of it: from left to right each reference up to
its first closing brace is replaced, and every other character stays. -/
inductive Expands (value : String → Option String) : List Char → List String → List Char → Prop
  | done : Expands value [] [] []
  | reference {name rest names result} : '}' ∉ name → Expands value rest names result →
      Expands value (written name ++ rest) (String.ofList name :: names)
        (replacement value name ++ result)
  | other {c rest names result} : ¬ BeginsReference (c :: rest) → Expands value rest names result →
      Expands value (c :: rest) names (c :: result)

/-- A dollar with an opening brace that no closing brace follows. -/
def Unclosed (text : List Char) : Prop :=
  ∃ front name, text = front ++ '$' :: '{' :: name ∧ '}' ∉ name

/-- The first such place in a text: what stands in front of it and what behind. -/
structure LeftOpen (text front name : List Char) : Prop where
  eq : text = front ++ '$' :: '{' :: name
  never : '}' ∉ name
  first : ¬ Unclosed front

/-- A text is nothing, or begins with a reference, or with a character that is part of none. -/
theorem reading_induction {motive : List Char → Prop} (done : motive [])
    (reference : ∀ name rest, '}' ∉ name → motive rest → motive (written name ++ rest))
    (other : ∀ c rest, ¬ BeginsReference (c :: rest) → motive rest → motive (c :: rest))
    (text : List Char) : motive text := by
  induction size : text.length using Nat.strongRecOn generalizing text with
  | ind length ih =>
    subst size
    match text with
    | [] => exact done
    | c :: rest =>
      by_cases begins : BeginsReference (c :: rest)
      · obtain ⟨more, eq, closed⟩ := begins
        obtain ⟨name, behind, rfl, first⟩ := List.eq_append_cons_of_mem closed
        have split : c :: rest = written name ++ behind := by simp [eq, written]
        have shorter : behind.length < (c :: rest).length := by
          rw [split, written]
          simp
          omega
        rw [split]
        exact reference name behind first (ih _ shorter behind rfl)
      · exact other c rest begins (ih _ (by simp) rest rfl)

theorem beginsReference_written (name rest : List Char) : BeginsReference (written name ++ rest) :=
  ⟨name ++ '}' :: rest, by simp [written], by simp⟩

theorem written_append_inj {name name' rest rest' : List Char} (h : '}' ∉ name) (h' : '}' ∉ name')
    (eq : written name ++ rest = written name' ++ rest') : name = name' ∧ rest = rest' := by
  have upTo (name rest : List Char) (h : '}' ∉ name) :
      (name ++ '}' :: rest).takeWhile (· ≠ '}') = name := by
    have inside : ∀ c ∈ name, decide (c ≠ '}') = true :=
      fun c mem => decide_eq_true fun eq => h (eq ▸ mem)
    rw [List.takeWhile_append_of_pos inside, List.takeWhile_cons_of_neg (by simp), List.append_nil]
  have eq : name ++ '}' :: rest = name' ++ '}' :: rest' := by simpa [written] using eq
  have same : name = name' := by rw [← upTo name rest h, eq, upTo name' rest' h']
  subst same
  exact ⟨rfl, by simpa using eq⟩

theorem exists_expands (value : String → Option String) (text : List Char) :
    ∃ names result, Expands value text names result := by
  induction text using reading_induction with
  | done => exact ⟨[], [], .done⟩
  | reference name rest first ih =>
    obtain ⟨names, result, h⟩ := ih
    exact ⟨_, _, .reference first h⟩
  | other c rest plain ih =>
    obtain ⟨names, result, h⟩ := ih
    exact ⟨_, _, .other plain h⟩

theorem Expands.unique {value : String → Option String} {text : List Char} {names names' : List String}
    {result result' : List Char} (h : Expands value text names result)
    (h' : Expands value text names' result') : names' = names ∧ result' = result := by
  induction h generalizing names' result' with
  | done => cases h'; exact ⟨rfl, rfl⟩
  | @reference name rest names result first _ ih =>
    generalize eq : written name ++ rest = text at h'
    cases h' with
    | done => simp [written] at eq
    | reference first' h' =>
      obtain ⟨rfl, rfl⟩ := written_append_inj first first' eq
      obtain ⟨rfl, rfl⟩ := ih h'
      exact ⟨rfl, rfl⟩
    | other plain => exact absurd (eq ▸ beginsReference_written name rest) plain
  | @other c rest names result plain _ ih =>
    generalize eq : c :: rest = text at h'
    cases h' with
    | done => simp at eq
    | @reference name behind => exact absurd (eq ▸ beginsReference_written name behind) plain
    | other _ h' =>
      obtain ⟨rfl, rfl⟩ := List.cons.inj eq
      obtain ⟨rfl, rfl⟩ := ih h'
      exact ⟨rfl, rfl⟩

theorem pieces_open {name : List Char} (h : '}' ∉ name) (sofar : List Char) :
    pieces (some sofar) name = [.reference (sofar.reverse ++ name)] := by
  induction name generalizing sofar with
  | nil => simp [pieces]
  | cons c name ih =>
    have more : c ≠ '}' := fun eq => h (by simp [eq])
    rw [pieces, if_neg more, ih (List.not_mem_of_not_mem_cons h)]
    simp

theorem pieces_closed {name : List Char} (h : '}' ∉ name) (sofar rest : List Char) :
    pieces (some sofar) (name ++ '}' :: rest) =
      .reference (sofar.reverse ++ name) :: pieces none rest := by
  induction name generalizing sofar with
  | nil => simp [pieces]
  | cons c name ih =>
    have more : c ≠ '}' := fun eq => h (by simp [eq])
    rw [List.cons_append, pieces, if_neg more, ih (List.not_mem_of_not_mem_cons h)]
    simp

theorem pieces_written {name : List Char} (h : '}' ∉ name) (rest : List Char) :
    pieces none (written name ++ rest) = .reference name :: pieces none rest := by
  have split : written name ++ rest = '$' :: '{' :: (name ++ '}' :: rest) := by simp [written]
  rw [split, pieces, pieces_closed h]
  rfl

theorem pieces_character {c : Char} {rest : List Char}
    (h : ∀ more, c :: rest ≠ '$' :: '{' :: more) :
    pieces none (c :: rest) = .character c :: pieces none rest := by
  rw [pieces]
  rintro more rfl rfl
  exact h more rfl

theorem expand_reference (value : String → Option String) (name : List Char) :
    (Piece.reference name).expand value = replacement value name := by
  rw [Piece.expand, replacement]
  cases value (String.ofList name) <;> rfl

/-- Without an opening that is never closed a dollar with an opening brace begins a reference. -/
theorem ne_opening {c : Char} {rest : List Char} (plain : ¬ BeginsReference (c :: rest))
    (closed : ¬ Unclosed (c :: rest)) (more : List Char) : c :: rest ≠ '$' :: '{' :: more := by
  intro eq
  by_cases later : '}' ∈ more
  · exact plain ⟨more, eq, later⟩
  · exact closed ⟨[], more, eq, later⟩

theorem Unclosed.append {rest : List Char} (h : Unclosed rest) (front : List Char) :
    Unclosed (front ++ rest) := by
  obtain ⟨before, name, rfl, never⟩ := h
  exact ⟨front ++ before, name, by simp, never⟩

theorem Unclosed.cons {rest : List Char} (h : Unclosed rest) (c : Char) : Unclosed (c :: rest) :=
  h.append [c]

/-- Up to an opening that is never closed, a text is read as if it ended there. -/
theorem pieces_append_opening {front name : List Char} (closed : ¬ Unclosed front)
    (never : '}' ∉ name) :
    pieces none (front ++ '$' :: '{' :: name) = pieces none front ++ [.reference name] := by
  induction front using reading_induction with
  | done => exact pieces_open never []
  | reference inner rest first ih =>
    rw [List.append_assoc, pieces_written first, pieces_written first,
      ih fun h => closed (h.append (written inner)), List.cons_append]
  | other c rest plain ih =>
    have alone := ne_opening plain closed
    have alone' (more : List Char) : c :: (rest ++ '$' :: '{' :: name) ≠ '$' :: '{' :: more := by
      intro eq
      cases rest with
      | nil => simp at eq
      | cons d rest =>
        obtain ⟨rfl, rfl⟩ : c = '$' ∧ d = '{' := by simp_all
        exact alone rest rfl
    rw [List.cons_append, pieces_character alone', pieces_character alone,
      ih fun h => closed (h.cons c), List.cons_append]

theorem flatMap_pieces {value : String → Option String} {text : List Char} {names : List String}
    {result : List Char} (h : Expands value text names result) (closed : ¬ Unclosed text) :
    (pieces none text).flatMap (Piece.expand value) = result := by
  induction h with
  | done => rfl
  | @reference name rest names result first _ ih =>
    rw [pieces_written first, List.flatMap_cons, expand_reference,
      ih fun open_ => closed (open_.append (written name))]
  | @other c rest names result plain _ ih =>
    rw [pieces_character (ne_opening plain closed), List.flatMap_cons,
      ih fun open_ => closed (open_.cons c)]
    rfl

/-- A text without a closing brace stays as it is. -/
theorem expands_of_not_mem (value : String → Option String) {text : List Char} (h : '}' ∉ text) :
    Expands value text [] text := by
  induction text with
  | nil => exact .done
  | cons c rest ih =>
    refine .other ?_ (ih (List.not_mem_of_not_mem_cons h))
    rintro ⟨more, eq, closed⟩
    rw [eq] at h
    exact h (by simp [closed])

/-- What stands in front of an opening that is never closed is read as if the text ended there, and the
rest stays as it is. -/
theorem Expands.append_opening {value : String → Option String} {front name : List Char}
    {names : List String} {result : List Char} (h : Expands value front names result)
    (never : '}' ∉ name) :
    Expands value (front ++ '$' :: '{' :: name) names (result ++ '$' :: '{' :: name) := by
  induction h with
  | done => exact expands_of_not_mem value (by simp [never])
  | @reference inner rest names result first _ ih =>
    rw [List.append_assoc, List.append_assoc]
    exact .reference first ih
  | @other c rest names result plain _ ih =>
    refine .other ?_ ih
    rintro ⟨more, eq, closed⟩
    cases rest with
    | nil => simp at eq
    | cons d rest =>
      obtain ⟨rfl, rfl, rfl⟩ : c = '$' ∧ d = '{' ∧ rest ++ '$' :: '{' :: name = more := by
        simpa using eq
      exact plain ⟨rest, rfl, by simpa [never] using closed⟩

theorem exists_leftOpen {text : List Char} (h : Unclosed text) :
    ∃ front name, LeftOpen text front name := by
  obtain ⟨front, name, eq, never⟩ := h
  induction size : front.length using Nat.strongRecOn generalizing front name with
  | ind length ih =>
    subst size
    by_cases earlier : Unclosed front
    · obtain ⟨before, name', rfl, never'⟩ := earlier
      exact ih _ (by simp) before (name' ++ '$' :: '{' :: name) (by simp [eq])
        (by simp [never, never']) rfl
    · exact ⟨front, name, eq, never, earlier⟩

theorem Expands.eq_of_unset {value : String → Option String} {text : List Char}
    {names : List String} {result : List Char} (h : Expands value text names result)
    (unset : ∀ name ∈ names, value name = none) : result = text := by
  induction h with
  | done => rfl
  | @reference name rest names result first _ ih =>
    rw [replacement, unset _ List.mem_cons_self, ih fun name mem => unset name (.tail _ mem)]
    rfl
  | other _ _ ih => rw [ih unset]

theorem expand_toList (value : String → Option String) (text : String) :
    (expand value text).toList = (pieces none text.toList).flatMap (Piece.expand value) :=
  String.toList_ofList

theorem expand_of_leftOpen (value : String → Option String) {text : String}
    {front name : List Char} (h : LeftOpen text.toList front name) :
    (expand value text).toList =
      (expand value (String.ofList front)).toList ++ replacement value name := by
  rw [expand_toList, expand_toList, h.eq, pieces_append_opening h.first h.never,
    String.toList_ofList, List.flatMap_append, List.flatMap_singleton, expand_reference]

/-- The replacement of a reference is never the mere opening with the name, unless that is its value. -/
theorem replacement_eq_opening_iff {value : String → Option String} {name : List Char} :
    replacement value name = '$' :: '{' :: name ↔
      value (String.ofList name) = some (String.ofList ('$' :: '{' :: name)) := by
  rw [replacement]
  cases value (String.ofList name) with
  | none => simp [written]
  | some text =>
    rw [Option.elim_some, Option.some.injEq, ← String.toList_inj, String.toList_ofList]

/-- With an opening that is never closed, a text is expanded as it should be only by chance. -/
theorem LeftOpen.expand_eq_iff {value : String → Option String} {text : String}
    {front name result : List Char} {names : List String} (h : LeftOpen text.toList front name)
    (expands : Expands value text.toList names result) :
    (expand value text).toList = result ↔
      value (String.ofList name) = some (String.ofList ('$' :: '{' :: name)) := by
  obtain ⟨names', before, inFront⟩ := exists_expands value front
  have whole := inFront.append_opening h.never
  rw [← h.eq] at whole
  obtain ⟨-, rfl⟩ := expands.unique whole
  rw [expand_of_leftOpen value h, expand_toList, String.toList_ofList,
    flatMap_pieces inFront h.first, List.append_cancel_left_eq, replacement_eq_opening_iff]

/-- Expanding a text replaces its references and nothing else, if and only if it has no opening that
is never closed, or one whose value is just what stands there. Otherwise all that follows the first such
opening is taken for a name. -/
theorem expand_expands (value : String → Option String) (text : String) :
    ∃ names result, Expands value text.toList names result ∧
      (∀ names' result', Expands value text.toList names' result' →
        names' = names ∧ result' = result) ∧
      ((∀ name ∈ names, value name = none) → result = text.toList) ∧
      ((expand value text).toList = result ↔
        ∀ front name, LeftOpen text.toList front name →
          value (String.ofList name) = some (String.ofList ('$' :: '{' :: name))) ∧
      ∀ front name, LeftOpen text.toList front name →
        (expand value text).toList =
          (expand value (String.ofList front)).toList ++ replacement value name := by
  obtain ⟨names, result, expands⟩ := exists_expands value text.toList
  refine ⟨names, result, expands, fun names' result' h => expands.unique h, expands.eq_of_unset, ?_,
    fun front name h => expand_of_leftOpen value h⟩
  constructor
  · exact fun same front name h => (h.expand_eq_iff expands).1 same
  · intro lucky
    by_cases closed : Unclosed text.toList
    · obtain ⟨front, name, h⟩ := exists_leftOpen closed
      exact (h.expand_eq_iff expands).2 (lucky front name h)
    · rw [expand_toList]
      exact flatMap_pieces expands closed

/-- A settings file with a dollar and an opening brace in a value, which no brace closes. -/
theorem expand_unclosed :
    Expands (fun _ => none) "app_name = \"cost in $\x7b\"".toList []
        "app_name = \"cost in $\x7b\"".toList ∧
      expand (fun _ => none) "app_name = \"cost in $\x7b\"" = "app_name = \"cost in $\x7b\"\x7d" :=
  ⟨expands_of_not_mem _ (by decide), by decide⟩

end Workflow.Environment
