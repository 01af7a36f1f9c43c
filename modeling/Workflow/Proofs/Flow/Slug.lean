import Mathlib.Data.List.Infix
import Workflow.Flow.Builder
import Workflow.Flow.Naming

/-!
The words of a text and its short name. The short name is what is left of the joined words after a cut,
and it has a form of which every text is its own short name.
-/
namespace Workflow.Slug

/-- The longest stretches of letters and digits. -/
def words (text : List Char) : List (List Char) :=
  (text.splitOnP fun c => !c.isAlphanum).filter (· ≠ [])

/-- The words in lower case with one underscore between them. -/
def joined (text : List Char) : List Char :=
  ['_'].intercalate ((words text).map (·.map Char.toLower))

def isWordChar (c : Char) : Bool :=
  c.isLower || c.isDigit

/-- Words of small letters and digits with one underscore between them. -/
structure Tidy (text : List Char) : Prop where
  chars : ∀ c ∈ text, isWordChar c = true ∨ c = '_'
  first : text.head? ≠ some '_'
  last : text.getLast? ≠ some '_'
  single : ¬ ['_', '_'] <:+: text

/-- The form of short names. -/
structure Canonical (text : List Char) : Prop extends Tidy text where
  length_le : text.length ≤ 40

/-- A text without the underscore at its end, if there is one. -/
def withoutFinal (text : List Char) : List Char :=
  if text.getLast? = some '_' then text.dropLast else text

theorem toNat_lt_of_isAlphanum {c : Char} (h : c.isAlphanum = true) : c.toNat < 128 := by
  have bound : c.val ≤ 'z'.val := by
    obtain letter | digit := Bool.or_eq_true_iff.1 h
    · obtain upper | lower := Bool.or_eq_true_iff.1 letter
      · exact UInt32.le_trans (of_decide_eq_true upper).2 (by decide)
      · exact of_decide_eq_true (Bool.and_eq_true_iff.1 lower).2
    · exact UInt32.le_trans (of_decide_eq_true (Bool.and_eq_true_iff.1 digit).2) (by decide)
  exact (UInt32.le_iff_toNat_le.1 bound).trans_lt (by decide)

theorem isAlphanum_of_isWordChar {c : Char} (h : isWordChar c = true) : c.isAlphanum = true := by
  obtain lower | digit := Bool.or_eq_true_iff.1 h
  · have letter : c.isAlpha = true := Bool.or_eq_true_iff.2 (.inr lower)
    exact Bool.or_eq_true_iff.2 (.inl letter)
  · exact Bool.or_eq_true_iff.2 (.inr digit)

/-- Letters and digits are among the first 128 characters, so that it is enough to look at these. -/
theorem of_table {p : Char → Prop} (table : ∀ n < 128, p (Char.ofNat n)) {c : Char}
    (h : c.isAlphanum = true) : p c := by
  have found := table c.toNat (toNat_lt_of_isAlphanum h)
  rwa [Char.ofNat_toNat] at found

theorem isWordChar_toLower {c : Char} (h : c.isAlphanum = true) : isWordChar c.toLower = true := by
  refine of_table (p := fun c => c.isAlphanum = true → isWordChar c.toLower = true) ?_ h h
  decide +kernel

theorem toLower_eq_self {c : Char} (h : isWordChar c = true) : c.toLower = c := by
  refine of_table (p := fun c => isWordChar c = true → c.toLower = c) ?_
    (isAlphanum_of_isWordChar h) h
  decide +kernel

theorem ne_underscore_of_isWordChar {c : Char} (h : isWordChar c = true) : c ≠ '_' := by
  rintro rfl
  exact absurd h (by decide)

theorem words_cons_of_not_isAlphanum {c : Char} (h : c.isAlphanum = false) (rest : List Char) :
    words (c :: rest) = words rest := by
  simp [words, List.splitOnP_cons_eq_if_modifyHead, h]

/-- A letter or digit in front of another one makes the first word longer. -/
theorem words_cons_cons {c d : Char} (h : c.isAlphanum = true) (h' : d.isAlphanum = true)
    (rest : List Char) :
    ∃ word others, words (d :: rest) = word :: others ∧
      words (c :: d :: rest) = (c :: word) :: others := by
  obtain ⟨word, others, eq⟩ := List.exists_cons_of_ne_nil
    (List.splitOnP_ne_nil (fun c : Char => !c.isAlphanum) rest)
  refine ⟨d :: word, others.filter (· ≠ []), ?_, ?_⟩
  · simp [words, List.splitOnP_cons_eq_if_modifyHead, h', eq]
  · simp [words, List.splitOnP_cons_eq_if_modifyHead, h, h', eq]

/-- A letter or digit that is followed by neither is a word. -/
theorem words_cons_of_alone {c : Char} (h : c.isAlphanum = true) {rest : List Char}
    (alone : rest.head?.any Char.isAlphanum = false) : words (c :: rest) = [c] :: words rest := by
  cases rest with
  | nil => simp [words, List.splitOnP_cons_eq_if_modifyHead, h]
  | cons d rest =>
    have other : d.isAlphanum = false := by simpa using alone
    simp [words, List.splitOnP_cons_eq_if_modifyHead, h, other]

theorem joined_eq_nil_iff {text : List Char} : joined text = [] ↔ words text = [] := by
  constructor
  · intro empty
    cases found : words text with
    | nil => rfl
    | cons word others =>
      have nonempty : word ≠ [] := by
        have mem : word ∈ words text := by simp [found]
        simpa using (List.mem_filter.1 mem).2
      rw [joined, found] at empty
      cases others <;> simp [nonempty, List.intercalate_cons_cons] at empty
  · intro none
    simp [joined, none]

theorem joined_nil : joined [] = [] :=
  joined_eq_nil_iff.2 (by simp [words])

theorem joined_cons_of_not_isAlphanum {c : Char} (h : c.isAlphanum = false) (rest : List Char) :
    joined (c :: rest) = joined rest := by
  rw [joined, words_cons_of_not_isAlphanum h, joined]

theorem joined_cons_of_isAlphanum {c : Char} (h : c.isAlphanum = true) (rest : List Char) :
    joined (c :: rest) = c.toLower ::
      if rest.head?.any Char.isAlphanum ∨ joined rest = [] then joined rest
      else '_' :: joined rest := by
  by_cases more : rest.head?.any Char.isAlphanum = true
  · rw [if_pos (.inl more)]
    match rest with
    | d :: rest =>
      obtain ⟨word, others, eq, eq'⟩ := words_cons_cons h (by simpa using more) rest
      rw [joined, joined, eq, eq']
      cases others <;> simp [List.intercalate_cons_cons]
  · have alone := words_cons_of_alone h (by simpa using more)
    by_cases empty : joined rest = []
    · rw [if_pos (.inr empty), joined, alone, joined_eq_nil_iff.1 empty, empty]
      simp
    · rw [if_neg (by simp [more, empty]), joined, alone]
      obtain ⟨word, others, eq⟩ := List.exists_cons_of_ne_nil (mt joined_eq_nil_iff.2 empty)
      simp [joined, eq, List.intercalate_cons_cons]

theorem tidy_nil : Tidy [] :=
  ⟨by simp, by simp, by simp, by simp⟩

theorem Tidy.cons {text : List Char} (h : Tidy text) {c : Char} (word : isWordChar c = true) :
    Tidy (c :: text) where
  chars := List.forall_mem_cons.2 ⟨.inl word, h.chars⟩
  first := by simpa using ne_underscore_of_isWordChar word
  last := by
    cases text with
    | nil => simpa using ne_underscore_of_isWordChar word
    | cons d rest => simpa using h.last
  single := by
    rw [List.infix_cons_iff, List.cons_prefix_cons]
    rintro (⟨eq, -⟩ | inside)
    · exact ne_underscore_of_isWordChar word eq.symm
    · exact h.single inside

theorem Tidy.separated {text : List Char} (h : Tidy text) (nonempty : text ≠ []) {c : Char}
    (word : isWordChar c = true) : Tidy (c :: '_' :: text) where
  chars := List.forall_mem_cons.2 ⟨.inl word, List.forall_mem_cons.2 ⟨.inr rfl, h.chars⟩⟩
  first := by simpa using ne_underscore_of_isWordChar word
  last := by
    rw [List.getLast?_cons_cons]
    cases text with
    | nil => exact absurd rfl nonempty
    | cons d rest => simpa using h.last
  single := by
    rw [List.infix_cons_iff, List.infix_cons_iff]
    rintro (start | next | inside)
    · exact ne_underscore_of_isWordChar word (List.cons_prefix_cons.1 start).1.symm
    · obtain ⟨rest, rfl⟩ := (List.cons_prefix_cons.1 next).2
      exact h.first rfl
    · exact h.single inside

theorem tidy_joined (text : List Char) : Tidy (joined text) := by
  induction text with
  | nil => simpa [joined_nil] using tidy_nil
  | cons c rest ih =>
    cases kept : c.isAlphanum with
    | false =>
      rw [joined_cons_of_not_isAlphanum kept]
      exact ih
    | true =>
      rw [joined_cons_of_isAlphanum kept]
      split
      · exact ih.cons (isWordChar_toLower kept)
      · next apart => exact ih.separated (not_or.1 apart).2 (isWordChar_toLower kept)

theorem dropUnderscores_append {front text : List Char} (h : ∀ c ∈ front, c = '_')
    (first : text.head? ≠ some '_') : dropUnderscores (front ++ text) = text := by
  rw [dropUnderscores, List.dropWhile_append_of_pos (by simpa using h)]
  cases text with
  | nil => rfl
  | cons c rest => exact List.dropWhile_cons_of_neg (by simpa using first)

theorem dropFinalUnderscores_append {text back : List Char} (h : ∀ c ∈ back, c = '_')
    (last : text.getLast? ≠ some '_') : dropFinalUnderscores (text ++ back) = text := by
  rw [dropFinalUnderscores, List.reverse_append,
    dropUnderscores_append (by simpa using h) (by simpa using last), List.reverse_reverse]

theorem drop_around {front text back : List Char} (h : Tidy text) (front_ : ∀ c ∈ front, c = '_')
    (back_ : ∀ c ∈ back, c = '_') :
    dropFinalUnderscores (dropUnderscores (front ++ text ++ back)) = text := by
  cases text with
  | nil =>
    have all : ∀ c ∈ front ++ back, c = '_' := by
      simpa [or_imp, forall_and] using ⟨front_, back_⟩
    have none : dropUnderscores (front ++ back ++ []) = [] := dropUnderscores_append all (by simp)
    rw [List.append_nil] at none ⊢
    rw [none]
    rfl
  | cons c rest =>
    have first : (c :: rest ++ back).head? ≠ some '_' := h.first
    rw [List.append_assoc, dropUnderscores_append front_ first,
      dropFinalUnderscores_append back_ h.last]

/-- Squashing a text joins its words, up to underscores at both ends. The one in front is there if the
text begins with something else than a word. -/
theorem exists_squash (afterUnderscore : Bool) (text : List Char) :
    ∃ back, (∀ c ∈ back, c = '_') ∧
      squash afterUnderscore text =
        (if !afterUnderscore && text.head?.any (!·.isAlphanum) then ['_'] else []) ++
          joined text ++ back := by
  induction text generalizing afterUnderscore with
  | nil => exact ⟨[], by simp, by simp [squash, joined_nil]⟩
  | cons c rest ih =>
    cases kept : c.isAlphanum with
    | false =>
      obtain ⟨back, all, eq⟩ := ih true
      refine ⟨back, all, ?_⟩
      cases afterUnderscore <;> simp [squash, kept, joined_cons_of_not_isAlphanum kept, eq]
    | true =>
      obtain ⟨back, all, eq⟩ := ih false
      rw [squash, if_pos kept, eq, joined_cons_of_isAlphanum kept]
      cases rest with
      | nil => exact ⟨back, all, by simp [kept, joined_nil]⟩
      | cons d rest =>
        cases more : d.isAlphanum with
        | true => exact ⟨back, all, by simp [kept, more]⟩
        | false =>
          -- The underscore behind the word separates it from the next one, if there is one.
          by_cases final : joined (d :: rest) = []
          · exact ⟨'_' :: back, by simpa using all, by simp [kept, more, final]⟩
          · exact ⟨back, all, by simp [kept, more, final]⟩

/-- Between two underscores at the end there would be nothing. -/
theorem dropFinalUnderscores_eq {text : List Char} (h : ¬ ['_', '_'] <:+: text) :
    dropFinalUnderscores text = withoutFinal text := by
  rcases text.eq_nil_or_concat with rfl | ⟨before, c, rfl⟩
  · rfl
  · rw [List.concat_eq_append] at h ⊢
    by_cases final : c = '_'
    · subst final
      have last : before.getLast? ≠ some '_' := by
        intro eq
        obtain ⟨start, rfl⟩ := List.getLast?_eq_some_iff.1 eq
        exact h ⟨start, [], by simp⟩
      rw [dropFinalUnderscores_append (by simp) last]
      simp [withoutFinal]
    · have last : (before ++ [c]).getLast? ≠ some '_' := by simpa using final
      have same : dropFinalUnderscores (before ++ [c] ++ []) = before ++ [c] :=
        dropFinalUnderscores_append (by simp) last
      rw [List.append_nil] at same
      rw [withoutFinal, if_neg last, same]

theorem withoutFinal_begins (text : List Char) : withoutFinal text <+: text := by
  unfold withoutFinal
  split
  · exact List.dropLast_prefix text
  · exact List.prefix_rfl

theorem Tidy.withoutFinal_of_begins {text part : List Char} (h : Tidy text) (part_ : part <+: text) :
    Tidy (withoutFinal part) where
  chars := fun c mem => h.chars c (((withoutFinal_begins part).trans part_).subset mem)
  first := by
    intro first
    obtain ⟨rest, eq⟩ := (withoutFinal_begins part).trans part_
    exact h.first (by rw [← eq, List.head?_append, first, Option.some_or])
  last := by
    unfold withoutFinal
    split
    · next final =>
      obtain ⟨before, rfl⟩ := List.getLast?_eq_some_iff.1 final
      rw [List.dropLast_concat]
      intro last
      obtain ⟨start, rfl⟩ := List.getLast?_eq_some_iff.1 last
      exact h.single (.trans ⟨start, [], by simp⟩ part_.isInfix)
    · next final => exact final
  single := fun inside =>
    h.single (inside.trans ((withoutFinal_begins part).trans part_).isInfix)

theorem ofText_eq (text : List Char) : ofText text = withoutFinal ((joined text).take 40) := by
  have tidy := tidy_joined text
  obtain ⟨back, all, eq⟩ := exists_squash false text
  have trimmed : dropFinalUnderscores (dropUnderscores (squash false text)) = joined text := by
    rw [eq]
    refine drop_around tidy ?_ all
    split <;> simp
  have single : ¬ ['_', '_'] <:+: (joined text).take 40 := fun inside =>
    tidy.single (inside.trans (List.take_prefix 40 (joined text)).isInfix)
  rw [ofText, trimmed, maxLength, dropFinalUnderscores_eq single]

theorem canonical_ofText (text : List Char) : Canonical (ofText text) := by
  rw [ofText_eq]
  exact {
    (tidy_joined text).withoutFinal_of_begins (List.take_prefix 40 (joined text)) with
    length_le := (withoutFinal_begins _).length_le.trans (List.length_take_le 40 _) }

theorem squash_eq_self {text : List Char} {afterUnderscore : Bool}
    (chars : ∀ c ∈ text, isWordChar c = true ∨ c = '_') (single : ¬ ['_', '_'] <:+: text)
    (first : afterUnderscore = true → text.head? ≠ some '_') :
    squash afterUnderscore text = text := by
  induction text generalizing afterUnderscore with
  | nil => rfl
  | cons c rest ih =>
    have chars' : ∀ d ∈ rest, isWordChar d = true ∨ d = '_' := fun d mem => chars d (.tail c mem)
    have single' : ¬ ['_', '_'] <:+: rest := fun inside => single (List.infix_cons inside)
    rcases chars c List.mem_cons_self with word | rfl
    · rw [squash, if_pos (isAlphanum_of_isWordChar word), toLower_eq_self word,
        ih chars' single' fun h => absurd h Bool.false_ne_true]
    · have before : ¬ afterUnderscore = true := fun after => first after rfl
      have alone : rest.head? ≠ some '_' := by
        intro eq
        obtain ⟨more, rfl⟩ := List.head?_eq_some_iff.1 eq
        exact single ⟨[], more, rfl⟩
      rw [squash, if_neg (by decide), if_neg before, ih chars' single' fun _ => alone]

/-- The canonical texts are those that the cut leaves as they are. -/
theorem ofText_eq_self {text : List Char} (h : Canonical text) : ofText text = text := by
  have trimmed : dropFinalUnderscores (dropUnderscores ([] ++ text ++ [])) = text :=
    drop_around h.toTidy (by simp) (by simp)
  have final : dropFinalUnderscores (text ++ []) = text := dropFinalUnderscores_append (by simp) h.last
  rw [List.nil_append, List.append_nil] at trimmed
  rw [List.append_nil] at final
  have same : squash false text = text :=
    squash_eq_self h.chars h.single fun eq => absurd eq Bool.false_ne_true
  rw [ofText, same, trimmed, maxLength, List.take_of_length_le h.length_le, final]

theorem ofText_ofText (text : List Char) : ofText (ofText text) = ofText text :=
  ofText_eq_self (canonical_ofText text)

theorem ofText_begins (text : List Char) : ofText text <+: joined text := by
  rw [ofText_eq]
  exact (withoutFinal_begins _).trans (List.take_prefix 40 _)

/-- Joined words that fit are not cut, and end with a word. -/
theorem ofText_eq_joined {text : List Char} (h : (joined text).length ≤ 40) :
    ofText text = joined text := by
  rw [ofText_eq, List.take_of_length_le h, withoutFinal, if_neg (tidy_joined text).last]

theorem toList_slug (text : String) : (slug text).toList = ofText text.toList :=
  String.toList_ofList

theorem slug_slug (text : String) : slug (slug text) = slug text := by
  rw [← String.toList_inj, toList_slug, toList_slug, ofText_ofText]

/-- The short name of a text is canonical: the joined words, cut and without an underscore at the end of
what is left. It is its own short name, so that a message and its short name give one gate. -/
theorem slug_canonical (text : String) :
    Canonical (slug text).toList ∧
      (slug text).toList = withoutFinal ((joined text.toList).take 40) ∧
      (slug text).toList <+: joined text.toList ∧
      ((slug text).length < (joined text.toList).length → 40 < (joined text.toList).length) ∧
      slug (slug text) = slug text ∧
      (∀ predicate, ∃ key,
        (Flow.gate predicate text).kind = .gate predicate text key ∧
          (Flow.gate predicate (slug text)).kind = .gate predicate (slug text) key) ∧
      ∀ predicate key, Naming.derive (.gate predicate (slug text) key) =
        Naming.derive (.gate predicate text key) := by
  have again := slug_slug text
  rw [← String.length_toList, toList_slug]
  refine ⟨canonical_ofText text.toList, ofText_eq text.toList, ofText_begins text.toList, ?_, again, ?_,
    ?_⟩
  · intro shorter
    by_contra short
    rw [ofText_eq_joined (Nat.le_of_not_lt short)] at shorter
    exact Nat.lt_irrefl _ shorter
  · intro predicate
    refine ⟨"_gate_" ++ slug text ++ "_approved", rfl, ?_⟩
    rw [Flow.gate, again]
    rfl
  · intro predicate key
    exact congrArg ("gate_" ++ ·) again

/-- A cut behind the separator of two words. -/
example :
    slug "Deploy: 10 machines in region EU-WEST-12, ok?" =
      "deploy_10_machines_in_region_eu_west_12" := by
  decide

end Workflow.Slug
