import Workflow.Json.Parser
import Workflow.Proofs.Json.Words

/-! What reading gives, and reading what was written. A value that comes from text has its fields in
order, nests no deeper than the reader goes and holds numbers that text can name. The words of such a
value read as the value. -/
namespace Workflow

namespace KeyMap

variable {α : Type}

theorem ofList_toList (map : KeyMap α) : ofList map.toList = map := by
  ext key value
  change ((∅ : KeyMap α).overwrite map).get? key = some value ↔ map.get? key = some value
  rw [get?_overwrite, get?_empty, Option.or_none]

end KeyMap

namespace Number

/-- The number is read back from its text. -/
def readsBack (number : Number) : Bool :=
  (Json.Token.number? number.text).any (· == number)

theorem readsBack_integer {n : Int} (h : Storable (.integer n)) : readsBack (.integer n) = true := by
  have read : Json.Token.number? (Number.integer n).text = some (.integer n) :=
    Json.Token.number?_integerText h
  have same : (Number.integer n == .integer n) = true := beq_self_eq_true n
  rw [readsBack, read, Option.any_some, same]

end Number

namespace Json

/-- A value that text can give, with arrays and objects inside of each other at most so deep. -/
inductive Read : Nat → Json → Prop where
  | null {depth : Nat} : Read depth .null
  | bool {depth : Nat} (value : Bool) : Read depth (.bool value)
  | number {depth : Nat} {value : Number} (storable : value.Storable) : Read depth (.number value)
  | string {depth : Nat} (text : String) : Read depth (.string text)
  | array {depth : Nat} {elements : List Json} (all : ∀ element ∈ elements, Read depth element) :
    Read (depth + 1) (.array elements)
  | object {depth : Nat} (fields : KeyMap Json) (all : ∀ field ∈ fields.toList, Read depth field.2) :
    Read (depth + 1) (.object fields.toList)

section sound

/-- The words that text can give. -/
def Token.Sound : Token → Prop
  | .literal value => ∀ depth, Read depth value
  | _ => True

theorem Token.sound_literal? {text : List Char} {value : Json} (h : literal? text = some value) :
    (Token.literal value).Sound := by
  intro depth
  unfold literal? at h
  split at h
  · exact Option.some.inj h ▸ .null
  split at h
  · exact Option.some.inj h ▸ .bool true
  split at h
  · exact Option.some.inj h ▸ .bool false
  obtain ⟨number, read, rfl⟩ := Option.map_eq_some_iff.1 h
  exact .number (storable_of_number? read)

theorem Token.sound_start {before : List Token} (h : ∀ token ∈ before, token.Sound) (c : Char) :
    ∀ token ∈ (start before c).tokens, token.Sound := by
  unfold start
  repeat' split
  all_goals simpa [Token.Sound] using h

theorem Token.sound_step {scan after : Scan} {c : Char} (h : ∀ token ∈ scan.tokens, token.Sound)
    (stepped : Token.step scan c = some after) : ∀ token ∈ after.tokens, token.Sound := by
  obtain ⟨before, position⟩ := scan
  cases position with
  | between =>
    obtain rfl := Option.some.inj stepped
    exact sound_start h c
  | quoted done escaping =>
    cases escaping with
    | true =>
      obtain rfl := Option.some.inj stepped
      exact h
    | false =>
      simp only [step] at stepped
      split at stepped
      · obtain ⟨text, -, last⟩ := Option.bind_eq_some_iff.1 stepped
        obtain rfl := Option.some.inj last
        exact List.forall_mem_cons.2 ⟨trivial, h⟩
      · obtain rfl := Option.some.inj stepped
        exact h
  | bare done =>
    simp only [step] at stepped
    split at stepped
    · obtain ⟨value, word, last⟩ := Option.bind_eq_some_iff.1 stepped
      obtain rfl := Option.some.inj last
      exact sound_start (List.forall_mem_cons.2 ⟨sound_literal? word, h⟩) c
    · obtain rfl := Option.some.inj stepped
      exact h

theorem Token.sound_foldlM {text : List Char} : ∀ {scan after : Scan},
    (∀ token ∈ scan.tokens, token.Sound) → text.foldlM step scan = some after →
      ∀ token ∈ after.tokens, token.Sound := by
  induction text with
  | nil =>
    intro scan after h scanned
    obtain rfl := Option.some.inj scanned
    exact h
  | cons c rest ih =>
    intro scan after h scanned
    obtain ⟨next, stepped, following⟩ := Option.bind_eq_some_iff.1 scanned
    exact ih (sound_step h stepped) following

theorem Token.sound_ofText? {text : List Char} {tokens : List Token}
    (h : ofText? text = some tokens) : ∀ token ∈ tokens, token.Sound := by
  rw [ofText?_eq] at h
  obtain ⟨found, closed, rfl⟩ := Option.map_eq_some_iff.1 h
  obtain ⟨⟨before, position⟩, scanned, last⟩ := Option.bind_eq_some_iff.1 closed
  have sound : ∀ token ∈ before, token.Sound :=
    sound_foldlM (fun _ mem => absurd mem List.not_mem_nil) scanned
  simp only [List.mem_reverse]
  cases position with
  | between =>
    obtain rfl := Option.some.inj last
    exact sound
  | quoted done escaping => exact absurd last (by simp [Scan.closed?])
  | bare done =>
    obtain ⟨value, word, rfl⟩ := Option.map_eq_some_iff.1 last
    exact List.forall_mem_cons.2 ⟨sound_literal? word, sound⟩

/-- What an open array or object holds so far. -/
def Frame.Holds (depth : Nat) : Frame → Prop
  | .array done => ∀ element ∈ done, Read depth element
  | .object done _ => ∀ field ∈ done, Read depth field.2

/-- The open frames leave room for a value of this depth. -/
def Fits : Nat → List Frame → Prop
  | depth, [] => depth = maxDepth
  | depth, frame :: outer => frame.Holds depth ∧ Fits (depth + 1) outer

theorem Fits.length_eq {depth : Nat} {frames : List Frame} (h : Fits depth frames) :
    depth + frames.length = maxDepth := by
  induction frames generalizing depth with
  | nil => exact h
  | cons frame outer ih =>
    have outside := ih h.2
    simp only [List.length_cons]
    omega

/-- The invariant of the reader. -/
def Expectation.Sound : Expectation → Prop
  | .anyValue frames => ∃ depth, Fits depth frames
  | .firstElement frames => ∃ depth, Fits (depth + 1) frames
  | .firstName frames => ∃ depth, Fits (depth + 1) frames
  | .afterElement done frames => ∃ depth, Fits (depth + 1) frames ∧ Frame.Holds depth (.array done)
  | .nextName done frames => ∃ depth, Fits (depth + 1) frames ∧ Frame.Holds depth (.object done "")
  | .afterName done name frames =>
    ∃ depth, Fits (depth + 1) frames ∧ Frame.Holds depth (.object done name)
  | .afterField done frames => ∃ depth, Fits (depth + 1) frames ∧ Frame.Holds depth (.object done "")
  | .finished value => Read maxDepth value

namespace Expectation

theorem sound_complete {depth : Nat} {frames : List Frame} {value : Json} (fits : Fits depth frames)
    (read : Read depth value) : (complete value frames).Sound := by
  cases frames with
  | nil =>
    obtain rfl : depth = maxDepth := fits
    exact read
  | cons frame outer =>
    obtain ⟨holds, fits⟩ := fits
    cases frame with
    | array done => exact ⟨depth, fits, List.forall_mem_cons.2 ⟨read, holds⟩⟩
    | object done name => exact ⟨depth, fits, List.forall_mem_cons.2 ⟨read, holds⟩⟩

theorem sound_startValue {depth : Nat} {frames : List Frame} {token : Token} {next : Expectation}
    (fits : Fits depth frames) (sound : token.Sound)
    (started : startValue frames token = some next) : next.Sound := by
  have room (inside : frames.length < maxDepth) : ∃ below, Fits (below + 1) frames := by
    obtain ⟨below, rfl⟩ : ∃ below, depth = below + 1 :=
      ⟨depth - 1, by have := fits.length_eq; omega⟩
    exact ⟨below, fits⟩
  cases token with
  | openArray =>
    simp only [startValue] at started
    split at started
    · next inside => exact Option.some.inj started ▸ room inside
    · exact absurd started (Option.some_ne_none _).symm
  | openObject =>
    simp only [startValue] at started
    split at started
    · next inside => exact Option.some.inj started ▸ room inside
    · exact absurd started (Option.some_ne_none _).symm
  | string text => exact Option.some.inj started ▸ sound_complete fits (.string text)
  | literal value => exact Option.some.inj started ▸ sound_complete fits (sound depth)
  | closeArray | closeObject | comma | colon => exact absurd started (Option.some_ne_none _).symm

theorem read_ofFields {depth : Nat} {fields : List (String × Json)}
    (all : ∀ field ∈ fields, Read depth field.2) : Read (depth + 1) (ofFields fields) := by
  have entries : ∀ (pairs : List (String × Json)) (map : KeyMap Json),
      (∀ field ∈ pairs, Read depth field.2) → (∀ key value, map.get? key = some value → Read depth value) →
        ∀ key value, (pairs.foldl (fun map pair => map.insert pair.1 pair.2) map).get? key = some value →
          Read depth value := by
    intro pairs
    induction pairs with
    | nil => exact fun map _ held => held
    | cons pair rest ih =>
      intro map all held
      obtain ⟨first, all⟩ := List.forall_mem_cons.1 all
      refine ih _ all fun key value found => ?_
      rw [KeyMap.get?_insert] at found
      split at found
      · exact Option.some.inj found ▸ first
      · exact held key value found
  refine .object _ fun field mem => ?_
  exact entries fields ∅ all (by simp) field.1 field.2 (KeyMap.mem_toList_iff.1 mem)

theorem sound_step {expectation next : Expectation} {token : Token} (h : expectation.Sound)
    (sound : token.Sound) (stepped : step expectation token = some next) : next.Sound := by
  unfold step at stepped
  split at stepped
  · obtain ⟨depth, fits⟩ := h
    exact sound_startValue fits sound stepped
  · obtain ⟨depth, fits⟩ := h
    exact Option.some.inj stepped ▸ sound_complete fits (.array (by simp))
  · obtain ⟨depth, fits⟩ := h
    have inside : Fits depth (.array [] :: _) := ⟨fun _ mem => absurd mem List.not_mem_nil, fits⟩
    exact sound_startValue inside sound stepped
  · obtain ⟨depth, fits, holds⟩ := h
    exact Option.some.inj stepped ▸ ⟨depth, holds, fits⟩
  · obtain ⟨depth, fits, holds⟩ := h
    refine Option.some.inj stepped ▸ sound_complete fits (.array fun element mem => ?_)
    exact holds element (List.mem_reverse.1 mem)
  · obtain ⟨depth, fits⟩ := h
    exact Option.some.inj stepped ▸ sound_complete fits (.object ∅ fun _ mem => absurd mem List.not_mem_nil)
  · obtain ⟨depth, fits⟩ := h
    exact Option.some.inj stepped ▸ ⟨depth, fits, fun _ mem => absurd mem List.not_mem_nil⟩
  · obtain ⟨depth, fits, holds⟩ := h
    exact Option.some.inj stepped ▸ ⟨depth, fits, holds⟩
  · obtain ⟨depth, fits, holds⟩ := h
    exact Option.some.inj stepped ▸ ⟨depth, holds, fits⟩
  · obtain ⟨depth, fits, holds⟩ := h
    exact Option.some.inj stepped ▸ ⟨depth, fits, holds⟩
  · obtain ⟨depth, fits, holds⟩ := h
    refine Option.some.inj stepped ▸ sound_complete fits (read_ofFields fun field mem => ?_)
    exact holds field (List.mem_reverse.1 mem)
  · exact absurd stepped (Option.some_ne_none _).symm

theorem sound_foldlM {tokens : List Token} : ∀ {expectation last : Expectation},
    expectation.Sound → (∀ token ∈ tokens, token.Sound) →
      tokens.foldlM step expectation = some last → last.Sound := by
  induction tokens with
  | nil =>
    intro expectation last h _ read
    exact Option.some.inj read ▸ h
  | cons token rest ih =>
    intro expectation last h sound read
    obtain ⟨next, stepped, following⟩ := Option.bind_eq_some_iff.1 read
    obtain ⟨first, sound⟩ := List.forall_mem_cons.1 sound
    exact ih (sound_step h first stepped) sound following

end Expectation

/-- What comes from text is in order and not too deep. -/
theorem read_of_parse? {text : List Char} {value : Json} (h : parse? text = some value) :
    Read maxDepth value := by
  obtain ⟨tokens, words, read⟩ := Option.bind_eq_some_iff.1 h
  obtain ⟨last, folded, finished⟩ := Option.bind_eq_some_iff.1 read
  have begins : (Expectation.anyValue []).Sound := ⟨maxDepth, rfl⟩
  have sound : last.Sound := Expectation.sound_foldlM begins (Token.sound_ofText? words) folded
  cases last with
  | finished found => exact Option.some.inj finished ▸ sound
  | _ => exact absurd finished (Option.some_ne_none _).symm

end sound

section written

open Expectation (step complete)

theorem tokens_head (value : Json) :
    ∃ first rest, value.tokens = first :: rest ∧ first ≠ .closeArray := by
  cases value with
  | array elements => cases elements <;> exact ⟨_, _, rfl, Token.noConfusion⟩
  | object fields => cases fields <;> exact ⟨_, _, rfl, Token.noConfusion⟩
  | _ => exact ⟨_, _, rfl, Token.noConfusion⟩

/-- Inside of frames that leave room for it, the words of a value bring the value back. -/
def Returns (depth : Nat) (value : Json) : Prop :=
  ∀ frames rest, depth + frames.length ≤ maxDepth →
    (value.tokens ++ rest).foldlM step (.anyValue frames) = rest.foldlM step (complete value frames)

theorem Returns.firstElement {depth : Nat} {value : Json} (h : Returns depth value)
    {frames : List Frame} (room : depth + 1 + frames.length ≤ maxDepth) (rest : List Token) :
    (value.tokens ++ rest).foldlM step (.firstElement frames) =
      rest.foldlM step (.afterElement [value] frames) := by
  have inside := h (.array [] :: frames) rest (by simp only [List.length_cons]; omega)
  obtain ⟨first, others, words, opens⟩ := value.tokens_head
  rw [words] at inside ⊢
  have begins : step (.firstElement frames) first = step (.anyValue (.array [] :: frames)) first := by
    cases first <;> first | rfl | exact absurd rfl opens
  rw [List.cons_append, List.foldlM_cons, begins]
  exact inside

theorem foldlM_elementTokens {depth : Nat} {frames : List Frame}
    (room : depth + 1 + frames.length ≤ maxDepth) {elements : List Json}
    (all : ∀ element ∈ elements, Returns depth element) (rest : List Token) : ∀ done,
    (elementTokens elements ++ rest).foldlM step (.afterElement done frames) =
      rest.foldlM step (complete (.array (done.reverse ++ elements)) frames) := by
  induction elements with
  | nil => intro done; simp [elementTokens, step]
  | cons first others ih =>
    intro done
    obtain ⟨returns, all⟩ := List.forall_mem_cons.1 all
    have inside := returns (.array done :: frames) (elementTokens others ++ rest)
      (by simp only [List.length_cons]; omega)
    have following := ih all (first :: done)
    simp only [elementTokens, List.cons_append, List.append_assoc, List.foldlM_cons]
    refine inside.trans (following.trans ?_)
    simp

theorem foldlM_fieldTokens {depth : Nat} {frames : List Frame}
    (room : depth + 1 + frames.length ≤ maxDepth) {fields : List (String × Json)}
    (all : ∀ field ∈ fields, Returns depth field.2) (rest : List Token) : ∀ done,
    (fieldTokens fields ++ rest).foldlM step (.afterField done frames) =
      rest.foldlM step (complete (ofFields (done.reverse ++ fields)) frames) := by
  induction fields with
  | nil => intro done; simp [fieldTokens, step]
  | cons first others ih =>
    intro done
    obtain ⟨name, value⟩ := first
    obtain ⟨returns, all⟩ := List.forall_mem_cons.1 all
    have inside := returns (.object done name :: frames) (fieldTokens others ++ rest)
      (by simp only [List.length_cons]; omega)
    have following := ih all ((name, value) :: done)
    simp only [fieldTokens, List.cons_append, List.append_assoc, List.foldlM_cons]
    refine inside.trans (following.trans ?_)
    simp

theorem Read.returns {depth : Nat} {value : Json} (h : Read depth value) : Returns depth value := by
  induction h with
  | null => exact fun _ _ _ => rfl
  | bool value => exact fun _ _ _ => rfl
  | number storable => exact fun _ _ _ => rfl
  | string text => exact fun _ _ _ => rfl
  | @array depth elements all ih =>
    intro frames rest room
    have opens : step (.anyValue frames) .openArray = some (.firstElement frames) :=
      if_pos (by omega)
    cases elements with
    | nil =>
      simp only [tokens, List.cons_append, List.foldlM_cons, opens]
      rfl
    | cons first others =>
      obtain ⟨returns, later⟩ := List.forall_mem_cons.1 ih
      simp only [tokens, List.cons_append, List.append_assoc, List.foldlM_cons, opens]
      exact (returns.firstElement room _).trans (foldlM_elementTokens room later rest [first])
  | @object depth fields all ih =>
    intro frames rest room
    have opens : step (.anyValue frames) .openObject = some (.firstName frames) :=
      if_pos (by omega)
    have sorted : ofFields fields.toList = .object fields.toList := by
      rw [ofFields, KeyMap.ofList_toList]
    cases entries : fields.toList with
    | nil =>
      simp only [tokens, List.cons_append, List.foldlM_cons, opens]
      rfl
    | cons first others =>
      obtain ⟨name, value⟩ := first
      rw [entries] at ih sorted
      obtain ⟨returns, later⟩ := List.forall_mem_cons.1 ih
      have inside := returns (.object [] name :: frames) (fieldTokens others ++ rest)
        (by simp only [List.length_cons]; omega)
      have following := foldlM_fieldTokens room later rest [(name, value)]
      simp only [tokens, List.cons_append, List.append_assoc, List.foldlM_cons, opens]
      refine inside.trans (following.trans ?_)
      rw [List.reverse_singleton, List.singleton_append, sorted]

theorem ofTokens?_tokens {value : Json} (h : Read maxDepth value) :
    ofTokens? value.tokens = some value := by
  have returned := h.returns [] [] (Nat.le_refl _)
  rw [List.append_nil] at returned
  rw [ofTokens?, returned]
  rfl

end written

section reread

theorem mem_rereadElements {elements others : List Json} (h : rereadElements elements = some others) :
    ∀ again ∈ others, ∃ element ∈ elements, element.reread = some again := by
  induction elements generalizing others with
  | nil =>
    obtain rfl := Option.some.inj h
    exact fun _ mem => absurd mem List.not_mem_nil
  | cons first rest ih =>
    obtain ⟨again, read, h⟩ := Option.bind_eq_some_iff.1 h
    obtain ⟨further, following, last⟩ := Option.bind_eq_some_iff.1 h
    obtain rfl := Option.some.inj last
    refine List.forall_mem_cons.2 ⟨⟨first, List.mem_cons_self, read⟩, fun other mem => ?_⟩
    obtain ⟨element, among, read⟩ := ih following other mem
    exact ⟨element, List.mem_cons_of_mem _ among, read⟩

theorem mem_rereadFields {fields others : List (String × Json)}
    (h : rereadFields fields = some others) :
    others.map Prod.fst = fields.map Prod.fst ∧
      ∀ again ∈ others, ∃ field ∈ fields, field.2.reread = some again.2 := by
  induction fields generalizing others with
  | nil =>
    obtain rfl := Option.some.inj h
    exact ⟨rfl, fun _ mem => absurd mem List.not_mem_nil⟩
  | cons first rest ih =>
    obtain ⟨name, value⟩ := first
    obtain ⟨again, read, h⟩ := Option.bind_eq_some_iff.1 h
    obtain ⟨further, following, last⟩ := Option.bind_eq_some_iff.1 h
    obtain rfl := Option.some.inj last
    obtain ⟨names, held⟩ := ih following
    refine ⟨by simp [names], List.forall_mem_cons.2 ⟨⟨_, List.mem_cons_self, read⟩, fun other mem => ?_⟩⟩
    obtain ⟨field, among, read⟩ := held other mem
    exact ⟨field, List.mem_cons_of_mem _ among, read⟩

theorem Read.reread {depth : Nat} {value : Json} (h : Read depth value) :
    ∀ again ∈ value.reread, Read depth again := by
  induction h with
  | null => exact fun _ same => Option.some.inj same ▸ .null
  | bool value => exact fun _ same => Option.some.inj same ▸ .bool value
  | string text => exact fun _ same => Option.some.inj same ▸ .string text
  | number storable =>
    intro again read
    obtain ⟨number, named, rfl⟩ := Option.map_eq_some_iff.1 read
    exact .number (Token.storable_of_number? named)
  | array all ih =>
    intro again read
    obtain ⟨others, named, rfl⟩ := Option.map_eq_some_iff.1 read
    refine .array fun other mem => ?_
    obtain ⟨element, among, read⟩ := mem_rereadElements named other mem
    exact ih element among other read
  | object fields all ih =>
    intro again read
    obtain ⟨others, named, rfl⟩ := Option.map_eq_some_iff.1 read
    obtain ⟨names, held⟩ := mem_rereadFields named
    have sorted : others.Pairwise fun entry next => entry.1 < next.1 := by
      have order := List.pairwise_map.2 fields.sorted
      rw [← names] at order
      exact List.pairwise_map.1 order
    refine .object ⟨others, sorted⟩ fun other mem => ?_
    obtain ⟨field, among, read⟩ := held other mem
    exact ih field among other.2 read

/-- A value that came from text is read from what is written of it, up to what its numbers are read as. -/
theorem parse?_compact {value : Json} (h : Read maxDepth value) : parse? value.compact = value.reread := by
  rw [parse?, ofText?_compact]
  cases read : value.reread with
  | none => rfl
  | some again => exact ofTokens?_tokens (h.reread again read)

mutual

/-- All numbers in the value. -/
def numbers : Json → List Number
  | .null => []
  | .bool _ => []
  | .number value => [value]
  | .string _ => []
  | .array elements => elementNumbers elements
  | .object fields => fieldNumbers fields

def elementNumbers : List Json → List Number
  | [] => []
  | value :: rest => numbers value ++ elementNumbers rest

def fieldNumbers : List (String × Json) → List Number
  | [] => []
  | (_, value) :: rest => numbers value ++ fieldNumbers rest

end

theorem elementNumbers_eq (elements : List Json) :
    elementNumbers elements = elements.flatMap numbers := by
  induction elements with
  | nil => rfl
  | cons first rest ih => rw [elementNumbers, ih, List.flatMap_cons]

theorem fieldNumbers_eq (fields : List (String × Json)) :
    fieldNumbers fields = fields.flatMap fun field => field.2.numbers := by
  induction fields with
  | nil => rfl
  | cons first rest ih => rw [fieldNumbers, ih, List.flatMap_cons]

theorem Read.storable {depth : Nat} {value : Json} (h : Read depth value) :
    ∀ number ∈ value.numbers, number.Storable := by
  induction h with
  | null | bool | string => exact fun _ mem => absurd mem List.not_mem_nil
  | number storable => exact List.forall_mem_singleton.2 storable
  | array all ih =>
    intro number mem
    rw [numbers, elementNumbers_eq] at mem
    obtain ⟨element, among, inside⟩ := List.mem_flatMap.1 mem
    exact ih element among number inside
  | object fields all ih =>
    intro number mem
    rw [numbers, fieldNumbers_eq] at mem
    obtain ⟨field, among, inside⟩ := List.mem_flatMap.1 mem
    exact ih field among number inside

mutual

/-- Writing and reading loses numbers only. -/
theorem any_reread : ∀ value : Json,
    value.reread.any (·.equal value) = value.numbers.all Number.readsBack
  | .null => rfl
  | .bool true => rfl
  | .bool false => rfl
  | .string text => by simp [reread, numbers, equal]
  | .number value => by
    simp only [reread, numbers, List.all_cons, List.all_nil, Bool.and_true, Number.readsBack,
      Option.any_map]
    rfl
  | .array elements => by
    have parts := any_rereadElements elements
    simp only [reread, numbers, Option.any_map]
    exact parts
  | .object fields => by
    have parts := any_rereadFields fields
    simp only [reread, numbers, Option.any_map]
    exact parts

theorem any_rereadElements : ∀ elements : List Json,
    (rereadElements elements).any (equalElements · elements) =
      (elementNumbers elements).all Number.readsBack
  | [] => rfl
  | value :: rest => by
    have first := any_reread value
    have others := any_rereadElements rest
    rw [elementNumbers, List.all_append, ← first, ← others, rereadElements]
    cases value.reread <;> cases rereadElements rest <;> simp [equalElements]

theorem any_rereadFields : ∀ fields : List (String × Json),
    (rereadFields fields).any (equalFields · fields) = (fieldNumbers fields).all Number.readsBack
  | [] => rfl
  | (name, value) :: rest => by
    have first := any_reread value
    have others := any_rereadFields rest
    rw [fieldNumbers, List.all_append, ← first, ← others, rereadFields]
    cases value.reread <;> cases rereadFields rest <;> simp [equalFields]

end

end reread

end Json
end Workflow
