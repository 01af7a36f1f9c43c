import Mathlib.Data.List.TakeDrop
import Mathlib.Data.List.TakeWhile
import Mathlib.Data.Option.Basic
import Workflow.Json.Printer
import Workflow.Json.Token

/-! The texts of numbers. An integer is read back from its text; a double is written with the same
few characters, but reading it back may round. -/
namespace Workflow

section Digits

theorem decimalValue_eq_ofDigitChars (digits : List Char) :
    Text.decimalValue digits = Nat.ofDigitChars 10 digits 0 := by
  rw [Nat.ofDigitChars_eq_foldl, Text.decimalValue, Text.positionalValue, List.foldl_map]
  simp only [Nat.mul_comm]

theorem decimalValue_toDigits (n : Nat) : Text.decimalValue (Nat.toDigits 10 n) = n := by
  rw [decimalValue_eq_ofDigitChars]
  exact Nat.ofDigitChars_ten_toDigits

theorem isDigit_of_mem_toDigits {n : Nat} {c : Char} (h : c ∈ Nat.toDigits 10 n) :
    c.isDigit = true :=
  Nat.isDigit_of_mem_toDigits (by decide) (by decide) h

theorem toDigits_eq_zero {n : Nat} (h : Nat.toDigits 10 n = ['0']) : n = 0 := by
  rw [← decimalValue_toDigits n, h]
  rfl

/-- Zero is the only number whose digits begin with a zero. -/
theorem head?_toDigits (n : Nat) :
    (Nat.toDigits 10 n).head? ≠ some '0' ∨ Nat.toDigits 10 n = ['0'] := by
  induction n using Nat.strongRecOn with
  | ind n ih =>
    rw [Nat.toDigits_eq_if (by decide)]
    by_cases small : n < 10
    · rw [if_pos small]
      have single : ∀ digit < 10,
          [Nat.digitChar digit].head? ≠ some '0' ∨ [Nat.digitChar digit] = ['0'] := by decide
      exact single n small
    · rw [if_neg small]
      have nonempty : Nat.toDigits 10 (n / 10) ≠ [] := Nat.toDigits_ne_nil
      have positive : Nat.toDigits 10 (n / 10) ≠ ['0'] := fun zero => by
        have := toDigits_eq_zero zero
        omega
      obtain ⟨first, rest, digits⟩ := List.exists_cons_of_ne_nil nonempty
      have first : (Nat.toDigits 10 (n / 10)).head? ≠ some '0' :=
        (ih (n / 10) (by omega)).resolve_right positive
      rw [digits] at first ⊢
      exact .inl first

theorem span_toDigits (n : Nat) :
    (Nat.toDigits 10 n).span Char.isDigit = (Nat.toDigits 10 n, []) := by
  have all : ∀ c ∈ Nat.toDigits 10 n, c.isDigit = true := fun c => isDigit_of_mem_toDigits
  rw [List.span_eq_takeWhile_dropWhile, List.takeWhile_eq_self_iff.2 all,
    List.dropWhile_eq_nil_iff.2 all]

end Digits

namespace Number

/-- What the text of a number can be read as. -/
def Storable : Number → Prop
  | .integer n => -(UInt64.size / 2 : Nat) ≤ n ∧ n < UInt64.size
  | .double _ => True
  | .single _ => False

/-- The characters that numbers are written with. -/
def isTextChar (c : Char) : Bool :=
  c.isDigit || c == '-' || c == '+' || c == '.' || c == 'e'

theorem isTextChar_of_isDigit {c : Char} (h : c.isDigit = true) : isTextChar c = true := by
  simp [isTextChar, h]

theorem isTextChar_of_mem_toDigits {n : Nat} {c : Char} (h : c ∈ Nat.toDigits 10 n) :
    isTextChar c = true :=
  isTextChar_of_isDigit (isDigit_of_mem_toDigits h)

theorem isTextChar_of_mem_zeros {count : Int} {c : Char} (h : c ∈ zeros count) :
    isTextChar c = true := by
  rw [List.eq_of_mem_replicate h]
  rfl

theorem isTextChar_of_mem_write {positional : Positional} {digits : List Char} {point : Int}
    (digital : ∀ c ∈ digits, isTextChar c = true) :
    ∀ c ∈ positional.write digits point, isTextChar c = true := by
  intro c mem
  unfold Positional.write at mem
  split at mem
  · split at mem
    · simp only [List.mem_append, List.mem_cons, List.not_mem_nil, or_false] at mem
      rcases mem with (mem | mem) | rfl | rfl
      · exact digital c mem
      · exact isTextChar_of_mem_zeros mem
      · rfl
      · rfl
    · split at mem
      · simp only [List.mem_append, List.mem_cons] at mem
        rcases mem with mem | rfl | mem
        · exact digital c (List.mem_of_mem_take mem)
        · rfl
        · exact digital c (List.mem_of_mem_drop mem)
      · simp only [List.mem_append, List.mem_cons] at mem
        rcases mem with (rfl | rfl | mem) | mem
        · rfl
        · rfl
        · exact isTextChar_of_mem_zeros mem
        · exact digital c mem
  · rcases List.mem_append.1 mem with mem | mem
    · split at mem
      · simp only [List.mem_cons] at mem
        rcases mem with rfl | rfl | rfl | mem
        · exact digital _ (by simp)
        · rfl
        · exact digital _ (by simp)
        · exact digital c (by simp [mem])
      · exact digital c mem
    · simp only [List.mem_cons] at mem
      rcases mem with rfl | rfl | mem
      · rfl
      · split <;> rfl
      · exact isTextChar_of_mem_toDigits mem

theorem write_ne_nil (positional : Positional) (digits : List Char) (point : Int) :
    positional.write digits point ≠ [] := by
  unfold Positional.write
  split
  · split
    · simp
    · split <;> simp
  · simp

namespace Binary

variable {format : Format}

theorem text_eq (positional : Positional) (x : Binary format) :
    x.text positional = (if x.negative then ['-'] else []) ++
      if x.rank = 0 then ['0', '.', '0']
      else
        positional.write (dropTrailingZeros (Nat.toDigits 10 (shortest format x.rank).digits))
          ((Nat.toDigits 10 (shortest format x.rank).digits).length +
            (shortest format x.rank).exponent) := by
  unfold text
  by_cases zero : x.rank = 0
  · simp only [zero, if_true]
  · simp only [zero, if_false]

theorem isTextChar_of_mem_text {positional : Positional} {x : Binary format} {c : Char}
    (h : c ∈ x.text positional) : isTextChar c = true := by
  rw [text_eq] at h
  rcases List.mem_append.1 h with mem | mem
  · split at mem
    · rw [List.mem_singleton.1 mem]
      rfl
    · exact absurd mem List.not_mem_nil
  · split at mem
    · simp only [List.mem_cons, List.not_mem_nil, or_false] at mem
      rcases mem with rfl | rfl | rfl <;> rfl
    · refine isTextChar_of_mem_write (fun d among => ?_) c mem
      have kept : d ∈ (Nat.toDigits 10 (shortest format x.rank).digits).reverse :=
        (List.dropWhile_sublist _).subset (List.mem_reverse.1 among)
      exact isTextChar_of_mem_toDigits (List.mem_reverse.1 kept)

theorem text_ne_nil (positional : Positional) (x : Binary format) : x.text positional ≠ [] := by
  rw [text_eq]
  refine List.append_ne_nil_of_right_ne_nil _ ?_
  split
  · exact List.cons_ne_nil _ _
  · exact write_ne_nil _ _ _

end Binary

theorem isTextChar_of_mem_text {number : Number} {c : Char} (h : c ∈ number.text) :
    isTextChar c = true := by
  cases number with
  | integer n =>
    change c ∈ integerText n at h
    unfold integerText at h
    split at h
    · rcases List.mem_cons.1 h with rfl | mem
      · rfl
      · exact isTextChar_of_mem_toDigits mem
    · exact isTextChar_of_mem_toDigits h
  | double x => exact Binary.isTextChar_of_mem_text h
  | single x => exact Binary.isTextChar_of_mem_text h

theorem text_ne_nil (number : Number) : number.text ≠ [] := by
  cases number with
  | integer n =>
    change integerText n ≠ []
    unfold integerText
    split
    · exact List.cons_ne_nil _ _
    · exact Nat.toDigits_ne_nil
  | double x => exact Binary.text_ne_nil _ x
  | single x => exact Binary.text_ne_nil _ x

end Number

/-- A guard whose condition holds is passed. -/
theorem guard_pos {p : Prop} [Decidable p] (h : p) : (guard p : Option Unit) = some () :=
  if_pos h

theorem guard_neg {p : Prop} [Decidable p] (h : ¬ p) : (guard p : Option Unit) = none :=
  if_neg h

namespace Json.Token

theorem number?_toDigits {n : Nat} (fits : n < UInt64.size) :
    number? (Nat.toDigits 10 n) = some (.integer n) := by
  have unsigned (rest : List Char) : Nat.toDigits 10 n ≠ '-' :: rest := fun eq => by
    have digit : '-'.isDigit = true := isDigit_of_mem_toDigits (n := n) (eq ▸ List.mem_cons_self)
    exact absurd digit (by decide)
  have nonempty : Nat.toDigits 10 n ≠ [] := Nat.toDigits_ne_nil
  have passes := guard_pos (And.intro nonempty (head?_toDigits n))
  unfold number?
  simp only [span_toDigits, passes]
  simp [decimalValue_toDigits, fits]

theorem number?_neg_toDigits {n : Nat} (positive : n ≠ 0) (fits : n ≤ UInt64.size / 2) :
    number? ('-' :: Nat.toDigits 10 n) = some (.integer (-n)) := by
  have nonempty : Nat.toDigits 10 n ≠ [] := Nat.toDigits_ne_nil
  have passes := guard_pos (And.intro nonempty (head?_toDigits n))
  unfold number?
  simp only [span_toDigits, passes]
  simp [decimalValue_toDigits, fits, positive]

/-- Integers of sixty-four bits survive being written and read. -/
theorem number?_integerText {n : Int} (h : Number.Storable (.integer n)) :
    number? (Number.integerText n) = some (.integer n) := by
  obtain ⟨least, fits⟩ := h
  unfold Number.integerText
  split
  · next negative =>
    rw [number?_neg_toDigits (by omega) (by omega)]
    congr 2
    omega
  · next nonnegative =>
    rw [number?_toDigits (by omega)]
    congr 2
    omega

/-- Whatever the text, an integer that is read from it has at most sixty-four bits. -/
theorem storable_of_number? {text : List Char} {number : Number} (h : number? text = some number) :
    number.Storable := by
  have onward {α : Type} (first : Option α) (next : α → Option Number)
      (all : ∀ value, ∀ number ∈ next value, number.Storable) :
      ∀ number ∈ first >>= next, number.Storable := by
    intro number mem
    obtain ⟨value, -, last⟩ := Option.bind_eq_some_iff.1 mem
    exact all value number last
  have word {value : Nat} {p q : Prop} (fits : p ∧ q ∧ value < UInt64.size) :
      ∀ number ∈ (pure (.integer value) : Option Number), number.Storable := by
    intro number mem
    obtain rfl := Option.some.inj mem
    exact ⟨by omega, by omega⟩
  have negated {value : Nat} {p q : Prop}
      (fits : p ∧ q ∧ value ≠ 0 ∧ value ≤ UInt64.size / 2) :
      ∀ number ∈ (pure (.integer (-value)) : Option Number), number.Storable := by
    intro number mem
    obtain rfl := Option.some.inj mem
    obtain ⟨-, -, positive, least⟩ := fits
    have some : 0 < UInt64.size := by decide
    exact ⟨by omega, by omega⟩
  have fraction {x : Number.Double} :
      ∀ number ∈ (pure (.double x) : Option Number), number.Storable := by
    intro number mem
    obtain rfl := Option.some.inj mem
    trivial
  suffices all : ∀ number ∈ number? text, number.Storable from all number h
  unfold number?
  dsimp only
  -- However the text goes on, it ends in one of three ways.
  repeat' first | refine onward _ _ fun _ => ?_ | split
  all_goals
    first
      | exact fraction
      | exact word (by assumption)
      | exact negated (by assumption)

end Json.Token

end Workflow
