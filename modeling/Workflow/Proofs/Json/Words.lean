import Mathlib.Data.List.Basic
import Workflow.Proofs.Number.Text

/-! The words of a value that is written on one line. Each part of the value is followed by a
punctuation mark or by the end of the text, and so no word runs into the next one. -/
namespace Workflow.Json

mutual

/-- The words that a value is written with. -/
def tokens : Json → List Token
  | .null => [.literal .null]
  | .bool value => [.literal (.bool value)]
  | .number value => [.literal (.number value)]
  | .string text => [.string text]
  | .array [] => [.openArray, .closeArray]
  | .array (first :: rest) => .openArray :: (tokens first ++ elementTokens rest)
  | .object [] => [.openObject, .closeObject]
  | .object ((name, value) :: rest) =>
    .openObject :: .string name :: .colon :: (tokens value ++ fieldTokens rest)

def elementTokens : List Json → List Token
  | [] => [.closeArray]
  | value :: rest => .comma :: (tokens value ++ elementTokens rest)

def fieldTokens : List (String × Json) → List Token
  | [] => [.closeObject]
  | (name, value) :: rest =>
    .comma :: .string name :: .colon :: (tokens value ++ fieldTokens rest)

end

mutual

/-- The value with each number replaced by what its text reads as. -/
def reread : Json → Option Json
  | .null => some .null
  | .bool value => some (.bool value)
  | .number value => (Token.number? value.text).map .number
  | .string text => some (.string text)
  | .array elements => (rereadElements elements).map .array
  | .object fields => (rereadFields fields).map .object

def rereadElements : List Json → Option (List Json)
  | [] => some []
  | value :: rest => do return (← reread value) :: (← rereadElements rest)

def rereadFields : List (String × Json) → Option (List (String × Json))
  | [] => some []
  | (name, value) :: rest => do return (name, ← reread value) :: (← rereadFields rest)

end

namespace Token

/-- The words of a scan at the end of the text. -/
def Scan.closed? (scan : Scan) : Option (List Token) :=
  match scan.position with
  | .between => some scan.tokens
  | .quoted .. => none
  | .bare done => (literal? done.reverse).map fun value => .literal value :: scan.tokens

/-- No quotation marks are open. -/
def Scan.Outside (scan : Scan) : Prop :=
  ∀ done escaping, scan.position ≠ .quoted done escaping

theorem ofText?_eq (text : List Char) :
    ofText? text = ((text.foldlM step ⟨[], .between⟩).bind Scan.closed?).map List.reverse := by
  unfold ofText?
  cases text.foldlM step ⟨[], .between⟩ with
  | none => rfl
  | some scan =>
    obtain ⟨tokens, position⟩ := scan
    cases position with
    | between => rfl
    | quoted done escaping => rfl
    | bare done =>
      change (do return (Token.literal (← literal? done.reverse) :: tokens).reverse) = _
      simp only [Option.bind_some, Scan.closed?]
      cases literal? done.reverse <;> rfl

/-- Outside of quotation marks a punctuation mark ends the word before it. -/
theorem step_punctuation {scan : Scan} {c : Char} (outside : scan.Outside)
    (mark : isPunctuation c = true) :
    step scan c = scan.closed?.map fun tokens => start tokens c := by
  obtain ⟨tokens, position⟩ := scan
  cases position with
  | between => rfl
  | quoted done escaping => exact absurd rfl (outside done escaping)
  | bare done =>
    simp only [step, mark, true_or, or_true, if_true, Scan.closed?, Option.map_map]
    cases literal? done.reverse <;> rfl

/-- Read between two words, the text consists of whole words, or cannot be read. -/
def Spells (text : List Char) (words : Option (List Token)) : Prop :=
  ∀ before, text.foldlM step ⟨before, .between⟩ =
    words.map fun tokens => ⟨tokens.reverse ++ before, .between⟩

/-- The same up to the last word, which may need the end of the text or a mark after it. -/
def Leads (text : List Char) (words : Option (List Token)) : Prop :=
  ∀ before, (∀ scan ∈ text.foldlM step ⟨before, .between⟩, scan.Outside) ∧
    (text.foldlM step ⟨before, .between⟩).bind Scan.closed? =
      words.map fun tokens => tokens.reverse ++ before

/-- The words of two texts, if both can be read. -/
def both (first second : Option (List Token)) : Option (List Token) :=
  first.bind fun front => second.map fun back => front ++ back

variable {text other : List Char} {words others : Option (List Token)}

theorem Spells.leads (h : Spells text words) : Leads text words := by
  intro before
  rw [h before]
  cases words with
  | none => exact ⟨fun _ mem => absurd mem (Option.not_mem_none _), rfl⟩
  | some tokens =>
    refine ⟨fun scan mem => ?_, rfl⟩
    obtain rfl := Option.some.inj mem
    exact fun _ _ => Position.noConfusion

theorem Spells.append (h : Spells text words) (g : Spells other others) :
    Spells (text ++ other) (both words others) := by
  intro before
  rw [List.foldlM_append, h before]
  cases words with
  | none => rfl
  | some front =>
    change other.foldlM step ⟨front.reverse ++ before, .between⟩ = _
    rw [g]
    cases others <;> simp [both]

/-- A mark after the text ends its last word. -/
theorem Leads.punctuated {c : Char} {mark : Token} (h : Leads text words)
    (punctuation : isPunctuation c = true)
    (starts : ∀ before, start before c = ⟨mark :: before, .between⟩) :
    Spells (text ++ [c]) (words.map (· ++ [mark])) := by
  intro before
  obtain ⟨outside, closed⟩ := h before
  have last : (text.foldlM step ⟨before, .between⟩).bind (step · c) =
      ((text.foldlM step ⟨before, .between⟩).bind Scan.closed?).map fun tokens => start tokens c := by
    cases read : text.foldlM step ⟨before, .between⟩ with
    | none => rfl
    | some scan => exact step_punctuation (outside scan read) punctuation
  rw [List.foldlM_append]
  calc (text.foldlM step ⟨before, .between⟩ >>= fun scan => [c].foldlM step scan)
      = (text.foldlM step ⟨before, .between⟩).bind (step · c) := by simp
    _ = (words.map fun tokens => tokens.reverse ++ before).map fun tokens => start tokens c := by
        rw [last, closed]
    _ = (words.map (· ++ [mark])).map fun tokens => ⟨tokens.reverse ++ before, .between⟩ := by
        cases words <;> simp [starts]

theorem spells_mark {c : Char} {mark : Token}
    (starts : ∀ before, start before c = ⟨mark :: before, .between⟩) :
    Spells [c] (some [mark]) := by
  intro before
  simp [step, starts]

section bare

/-- A character that neither ends a word nor opens quotation marks. -/
def isBare (c : Char) : Bool :=
  !(isSpace c || isPunctuation c || c == '"')

theorem isBare_of_isTextChar {c : Char} (h : Number.isTextChar c = true) : isBare c = true := by
  by_contra mark
  simp only [isBare, isSpace, isPunctuation, Bool.not_eq_true, Bool.not_eq_false', Bool.or_eq_true,
    beq_iff_eq, or_assoc] at mark
  rcases mark with rfl | rfl | rfl | rfl | rfl | rfl | rfl | rfl | rfl | rfl | rfl <;>
    exact absurd h (by decide)

theorem step_bare {before : List Token} {done : List Char} {c : Char} (h : isBare c = true) :
    step ⟨before, .bare done⟩ c = some ⟨before, .bare (c :: done)⟩ := by
  have continues : ¬(isSpace c = true ∨ isPunctuation c = true ∨ c = '"') := by
    simpa [isBare, and_assoc] using h
  simp only [step]
  rw [if_neg continues]

theorem start_bare {before : List Token} {c : Char} (h : isBare c = true) :
    start before c = ⟨before, .bare [c]⟩ := by
  simp only [isBare, isPunctuation, Bool.not_eq_true', Bool.or_eq_false_iff, beq_eq_false_iff_ne] at h
  simp [start, h]

theorem foldlM_bare {before : List Token} {text : List Char} (h : ∀ c ∈ text, isBare c = true) :
    ∀ done, text.foldlM step ⟨before, .bare done⟩ = some ⟨before, .bare (text.reverse ++ done)⟩ := by
  induction text with
  | nil => exact fun _ => rfl
  | cons c rest ih =>
    intro done
    have following := ih (fun d mem => h d (List.mem_cons_of_mem c mem)) (c :: done)
    rw [List.foldlM_cons, step_bare (h c List.mem_cons_self)]
    simpa using following

/-- A word without quotation marks goes on to the next mark. -/
theorem leads_bare {text : List Char} (nonempty : text ≠ []) (h : ∀ c ∈ text, isBare c = true) :
    Leads text ((literal? text).map fun value => [.literal value]) := by
  obtain ⟨c, rest, rfl⟩ := List.exists_cons_of_ne_nil nonempty
  intro before
  have scanned : (c :: rest).foldlM step ⟨before, .between⟩ =
      some ⟨before, .bare (rest.reverse ++ [c])⟩ := by
    rw [List.foldlM_cons]
    change rest.foldlM step (start before c) = _
    rw [start_bare (h c List.mem_cons_self),
      foldlM_bare fun d mem => h d (List.mem_cons_of_mem c mem)]
  rw [scanned]
  refine ⟨fun scan mem => ?_, ?_⟩
  · obtain rfl := Option.some.inj mem
    exact fun _ _ => Position.noConfusion
  · simp only [Option.bind_some, Scan.closed?, List.reverse_append, List.reverse_reverse,
      List.reverse_singleton, List.singleton_append, Option.map_map]
    cases literal? (c :: rest) <;> rfl

/-- The text of a number is none of the three names. -/
theorem literal?_text (number : Number) :
    literal? number.text = (number? number.text).map .number := by
  have named {c : Char} {rest : List Char} (letter : Number.isTextChar c = false) :
      number.text ≠ c :: rest := fun eq => by
    have first : c ∈ number.text := eq ▸ List.mem_cons_self
    have char := Number.isTextChar_of_mem_text first
    exact Bool.noConfusion (char.symm.trans letter)
  unfold literal?
  rw [if_neg (named (by decide)), if_neg (named (by decide)), if_neg (named (by decide))]

end bare

section quoted

theorem foldlM_plain {before : List Token} {text : List Char}
    (h : ∀ c ∈ text, c ≠ '"' ∧ c ≠ '\\') :
    ∀ done, text.foldlM step ⟨before, .quoted done false⟩ =
      some ⟨before, .quoted (text.reverse ++ done) false⟩ := by
  induction text with
  | nil => exact fun _ => rfl
  | cons c rest ih =>
    intro done
    obtain ⟨unquoted, plain⟩ := h c List.mem_cons_self
    have following := ih (fun d mem => h d (List.mem_cons_of_mem c mem)) (c :: done)
    rw [List.foldlM_cons]
    simpa [step, unquoted, plain] using following

theorem foldlM_escape {before : List Token} {mark : Char} {text : List Char}
    (h : ∀ c ∈ text, c ≠ '"' ∧ c ≠ '\\') (done : List Char) :
    ('\\' :: mark :: text).foldlM step ⟨before, .quoted done false⟩ =
      some ⟨before, .quoted (text.reverse ++ (mark :: '\\' :: done)) false⟩ := by
  have escaped : ['\\', mark].foldlM step ⟨before, .quoted done false⟩ =
      some ⟨before, .quoted (mark :: '\\' :: done) false⟩ := by
    simp [step]
  exact (congrArg (· >>= fun scan => text.foldlM step scan) escaped).trans (foldlM_plain h _)

theorem hexDigit?_digitChar : ∀ digit < 16, Text.hexDigit? (Nat.digitChar digit) = some digit := by
  decide

theorem digitChar_plain : ∀ digit < 16, Nat.digitChar digit ≠ '"' ∧ Nat.digitChar digit ≠ '\\' := by
  decide

/-- A character is written with a short escape, with its number, or as it stands. -/
theorem escapeChar_cases (c : Char) :
    (∃ mark, escaped? mark = some c ∧ escapeChar c = ['\\', mark]) ∨
      (c.toNat < 32 ∧ escapeChar c = controlEscape c) ∨
        ((c ≠ '"' ∧ c ≠ '\\' ∧ ' ' ≤ c) ∧ escapeChar c = [c]) := by
  by_cases named : c ∈ ['"', '\\', '\x08', '\t', '\n', '\x0c', '\r']
  · left
    simp only [List.mem_cons, List.not_mem_nil, or_false] at named
    rcases named with rfl | rfl | rfl | rfl | rfl | rfl | rfl
    · exact ⟨'"', rfl, rfl⟩
    · exact ⟨'\\', rfl, rfl⟩
    · exact ⟨'b', rfl, rfl⟩
    · exact ⟨'t', rfl, rfl⟩
    · exact ⟨'n', rfl, rfl⟩
    · exact ⟨'f', rfl, rfl⟩
    · exact ⟨'r', rfl, rfl⟩
  · simp only [List.mem_cons, List.not_mem_nil, or_false, not_or] at named
    by_cases control : c < ' '
    · refine .inr (.inl ⟨control, ?_⟩)
      simp [escapeChar, named, control]
    · refine .inr (.inr ⟨⟨named.1, named.2.1, Char.not_lt.1 control⟩, ?_⟩)
      simp [escapeChar, named, control]

theorem escapeChar_ne_nil (c : Char) : escapeChar c ≠ [] := by
  obtain ⟨_, -, eq⟩ | ⟨-, eq⟩ | ⟨-, eq⟩ := escapeChar_cases c <;> rw [eq] <;>
    exact List.cons_ne_nil _ _

theorem foldlM_escapeChar (before : List Token) (c : Char) (done : List Char) :
    (escapeChar c).foldlM step ⟨before, .quoted done false⟩ =
      some ⟨before, .quoted ((escapeChar c).reverse ++ done) false⟩ := by
  obtain ⟨mark, -, eq⟩ | ⟨control, eq⟩ | ⟨⟨unquoted, plain, -⟩, eq⟩ := escapeChar_cases c
  · rw [eq, foldlM_escape (fun _ mem => absurd mem List.not_mem_nil)]
    rfl
  · have high := digitChar_plain (c.toNat / 16) (by omega)
    have low := digitChar_plain (c.toNat % 16) (by omega)
    rw [eq, controlEscape, foldlM_escape]
    · rfl
    · simp [high, low]
  · rw [eq, foldlM_plain (by simp [unquoted, plain])]

/-- Each character of a string stays inside of the quotation marks. -/
theorem foldlM_escapes (before : List Token) (text : List Char) :
    ∀ done, (text.flatMap escapeChar).foldlM step ⟨before, .quoted done false⟩ =
      some ⟨before, .quoted ((text.flatMap escapeChar).reverse ++ done) false⟩ := by
  induction text with
  | nil => exact fun _ => rfl
  | cons c rest ih =>
    intro done
    rw [List.flatMap_cons, List.foldlM_append, foldlM_escapeChar]
    simpa using ih ((escapeChar c).reverse ++ done)

theorem codeUnit?_control {c : Char} (control : c.toNat < 32) :
    codeUnit? '0' '0' (Nat.digitChar (c.toNat / 16)) (Nat.digitChar (c.toNat % 16)) =
      some c.toNat := by
  have zero : Text.hexDigit? '0' = some 0 := rfl
  have high := hexDigit?_digitChar (c.toNat / 16) (by omega)
  have low := hexDigit?_digitChar (c.toNat % 16) (by omega)
  simp [codeUnit?, zero, high, low, Text.positionalValue]
  omega

/-- An escape with the number of a character below the surrogates stands for itself, whatever follows. -/
theorem unescape_unit {a b c d : Char} {unit : Nat} (read : codeUnit? a b c d = some unit)
    (low : unit < 0xd800) (rest : List Char) :
    unescape ('\\' :: 'u' :: a :: b :: c :: d :: rest) =
      (unescape rest).map (Char.ofNat unit :: ·) := by
  have notHigh : ¬(0xd800 ≤ unit ∧ unit < 0xdc00) := by omega
  have notLow : (guard ¬(0xdc00 ≤ unit ∧ unit < 0xe000) : Option Unit) = some () :=
    guard_pos (by omega)
  have scalar : (guard ¬(0xd800 ≤ unit ∧ unit < 0xe000) : Option Unit) = some () :=
    guard_pos (by omega)
  rw [unescape.eq_def]
  split
  · next eq => simp at eq
  · next a' b' c' d' e f g h tail eq =>
    obtain ⟨-, -, rfl, rfl, rfl, rfl, rfl⟩ := by simpa only [List.cons.injEq] using eq
    rw [read]
    simp only [Option.bind_eq_bind, Option.bind_some, if_neg notHigh, notLow]
    cases unescape ('\\' :: 'u' :: e :: f :: g :: h :: tail) <;> rfl
  · next a' b' c' d' tail _ eq =>
    obtain ⟨-, -, rfl, rfl, rfl, rfl, rfl⟩ := by simpa only [List.cons.injEq] using eq
    rw [read]
    simp only [Option.bind_eq_bind, Option.bind_some, scalar]
    cases unescape rest <;> rfl
  · next mark tail _ other eq =>
    obtain ⟨-, rfl, rfl⟩ := by simpa only [List.cons.injEq] using eq
    exact absurd rfl (other a b c d rest rfl)
  · next first tail _ _ other eq =>
    obtain ⟨rfl, rfl⟩ := by simpa only [List.cons.injEq] using eq
    exact absurd rfl (other _ _ rfl)

/-- What follows a character has no part in how it is read. -/
theorem unescape_escapeChar (c : Char) (rest : List Char) :
    unescape (escapeChar c ++ rest) = (unescape rest).map (c :: ·) := by
  obtain ⟨mark, escaped, eq⟩ | ⟨control, eq⟩ | ⟨⟨-, plain, visible⟩, eq⟩ := escapeChar_cases c
  · have short : mark ≠ 'u' := fun u => by simp [u, escaped?] at escaped
    rw [eq]
    change unescape ('\\' :: mark :: rest) = _
    rw [unescape, escaped]
    · cases unescape rest <;> rfl
    · exact fun _ _ _ _ _ _ _ _ _ u _ => short u
    · exact fun _ _ _ _ _ u _ => short u
  · rw [eq, controlEscape]
    exact (unescape_unit (codeUnit?_control control) (by omega) rest).trans (by rw [Char.ofNat_toNat])
  · rw [eq]
    change unescape (c :: rest) = _
    rw [unescape, guard_pos ⟨plain, visible⟩]
    · cases unescape rest <;> rfl
    · exact fun _ _ _ _ _ _ _ _ _ backslash _ => plain backslash
    · exact fun _ _ _ _ _ backslash _ => plain backslash
    · exact fun _ _ backslash _ => plain backslash

theorem unescape_escapes (text : List Char) : unescape (text.flatMap escapeChar) = some text := by
  induction text with
  | nil => rfl
  | cons c rest ih => rw [List.flatMap_cons, unescape_escapeChar, ih]; rfl

/-- A quoted string is one word, and the word is the string. -/
theorem spells_quote (text : String) : Spells (quote text) (some [.string text]) := by
  intro before
  have opened : quote text = '"' :: (text.toList.flatMap escapeChar ++ ['"']) := rfl
  rw [opened, List.foldlM_cons]
  change (text.toList.flatMap escapeChar ++ ['"']).foldlM step ⟨before, .quoted [] false⟩ = _
  rw [List.foldlM_append, foldlM_escapes]
  simp [step, unescape_escapes]

/-- The name of a field, the colon and what follows. -/
theorem spells_field (name : String) {text : List Char} {words : Option (List Token)}
    (h : Spells text words) :
    Spells (quote name ++ ':' :: text) (both (some [.string name, .colon]) words) := by
  have colon := (spells_quote name).leads.punctuated (c := ':') (by decide) fun _ => rfl
  have following := colon.append h
  simpa using following

end quoted

end Token

section compact

open Token

mutual

theorem leads_compact : ∀ value : Json, Leads value.compact (value.reread.map tokens)
  | .null => leads_bare (List.cons_ne_nil _ _) (List.all_eq_true.1 rfl)
  | .bool true => leads_bare (List.cons_ne_nil _ _) (List.all_eq_true.1 rfl)
  | .bool false => leads_bare (List.cons_ne_nil _ _) (List.all_eq_true.1 rfl)
  | .number value => by
    have bare : ∀ c ∈ value.text, isBare c = true := fun c mem =>
      isBare_of_isTextChar (Number.isTextChar_of_mem_text mem)
    have word := leads_bare value.text_ne_nil bare
    rw [literal?_text] at word
    simp only [reread, compact, Option.map_map] at word ⊢
    exact word
  | .string text => (spells_quote text).leads
  | .array [] => by
    have opened : Spells ['['] (some [.openArray]) := spells_mark fun _ => rfl
    have closed : Spells [']'] (some [.closeArray]) := spells_mark fun _ => rfl
    exact (opened.append closed).leads
  | .array (first :: rest) => by
    have opened : Spells ['['] (some [.openArray]) := spells_mark fun _ => rfl
    have following := (opened.append (spells_elements rest (leads_compact first))).leads
    have words : both (some [.openArray])
        (both (first.reread.map tokens) ((rereadElements rest).map elementTokens)) =
          (reread (.array (first :: rest))).map tokens := by
      simp only [reread, rereadElements]
      cases first.reread <;> cases rereadElements rest <;> simp [both, tokens]
    rwa [words] at following
  | .object [] => by
    have opened : Spells ['{'] (some [.openObject]) := spells_mark fun _ => rfl
    have closed : Spells ['}'] (some [.closeObject]) := spells_mark fun _ => rfl
    exact (opened.append closed).leads
  | .object ((name, first) :: rest) => by
    have opened : Spells ['{'] (some [.openObject]) := spells_mark fun _ => rfl
    have following :=
      (opened.append (spells_field name (spells_fields rest (leads_compact first)))).leads
    have words : both (some [.openObject])
        (both (some [.string name, .colon])
          (both (first.reread.map tokens) ((rereadFields rest).map fieldTokens))) =
          (reread (.object ((name, first) :: rest))).map tokens := by
      simp only [reread, rereadFields]
      cases first.reread <;> cases rereadFields rest <;> simp [both, tokens]
    rw [words] at following
    simpa [compact] using following

/-- The elements after a value, up to the end of the array. -/
theorem spells_elements : ∀ (rest : List Json) {text : List Char} {words : Option (List Token)},
    Leads text words →
      Spells (text ++ compactElements rest) (both words ((rereadElements rest).map elementTokens))
  | [], text, words, h => by
    have closed := h.punctuated (c := ']') (by decide) fun _ => rfl
    cases words <;> exact closed
  | value :: rest, text, words, h => by
    have comma := h.punctuated (c := ',') (by decide) fun _ => rfl
    have following := comma.append (spells_elements rest (leads_compact value))
    have words : both (words.map (· ++ [.comma]))
        (both (value.reread.map tokens) ((rereadElements rest).map elementTokens)) =
          both words ((rereadElements (value :: rest)).map elementTokens) := by
      simp only [rereadElements]
      cases words <;> cases value.reread <;> cases rereadElements rest <;>
        simp [both, elementTokens]
    rw [words] at following
    simpa [compactElements] using following

theorem spells_fields : ∀ (rest : List (String × Json)) {text : List Char}
    {words : Option (List Token)}, Leads text words →
      Spells (text ++ compactFields rest) (both words ((rereadFields rest).map fieldTokens))
  | [], text, words, h => by
    have closed := h.punctuated (c := '}') (by decide) fun _ => rfl
    cases words <;> exact closed
  | (name, value) :: rest, text, words, h => by
    have comma := h.punctuated (c := ',') (by decide) fun _ => rfl
    have following := comma.append (spells_field name (spells_fields rest (leads_compact value)))
    have words : both (words.map (· ++ [.comma])) (both (some [.string name, .colon])
        (both (value.reread.map tokens) ((rereadFields rest).map fieldTokens))) =
          both words ((rereadFields ((name, value) :: rest)).map fieldTokens) := by
      simp only [rereadFields]
      cases words <;> cases value.reread <;> cases rereadFields rest <;>
        simp [both, fieldTokens]
    rw [words] at following
    simpa [compactFields] using following

end

/-- The text of a value reads as the words of the value, with each number read from its own text. -/
theorem ofText?_compact (value : Json) : ofText? value.compact = value.reread.map tokens := by
  obtain ⟨-, closed⟩ := leads_compact value []
  rw [ofText?_eq, closed]
  cases value.reread <;> simp

end compact

end Workflow.Json
