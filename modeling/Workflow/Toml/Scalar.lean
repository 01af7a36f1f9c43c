import Workflow.Json.Basic
import Workflow.Timestamp.Basic
import Workflow.Toml.Text

/-! Numbers, truth values and times of TOML text. -/
namespace Workflow.Toml

/-- A run of digits in which single underscores may stand between digits; these are left out. -/
def digits? (isDigit : Char → Bool) : List Char → Option (List Char)
  | [] => none
  | [c] => if isDigit c then some [c] else none
  | c :: '_' :: rest => if isDigit c then (digits? isDigit rest).map (c :: ·) else none
  | c :: rest => if isDigit c then (digits? isDigit rest).map (c :: ·) else none

/-- Digits that do not begin with a zero, unless there is no other digit. -/
def wholeNumber? (text : List Char) : Option (List Char) :=
  if text.head? = some '0' ∧ text ≠ ['0'] then none else digits? Char.isDigit text

/-- A text without its sign, and whether that is a minus. -/
def unsigned : List Char → Bool × List Char
  | '-' :: rest => (true, rest)
  | '+' :: rest => (false, rest)
  | text => (false, text)

/-- An integer of sixty-four bits, in decimal or with a mark for its base. -/
def integer? (text : List Char) : Option Int := do
  let value : Int ←
    match text with
    | '0' :: 'x' :: rest => based? 16 rest
    | '0' :: 'o' :: rest => based? 8 rest
    | '0' :: 'b' :: rest => based? 2 rest
    | _ =>
      let (negative, rest) := unsigned text
      let value : Int := Text.decimalValue (← wholeNumber? rest)
      some (if negative then -value else value)
  guard (Int64.minValue.toInt ≤ value ∧ value ≤ Int64.maxValue.toInt)
  return value
where
  based? (base : Nat) (text : List Char) : Option Int := do
    let inBase (c : Char) : Bool := (Text.hexDigit? c).any (· < base)
    let digits ← (← digits? inBase text).mapM Text.hexDigit?
    return Text.positionalValue base digits

/-- Zero as a fraction. It stands for infinity and for what is no number as well, which have no JSON form: no
setting is a fraction, so that only the kind matters. -/
def someFraction : Json :=
  .number (.double ⟨false, 0, by decide⟩)

def isSpecial (text : List Char) : Bool :=
  text == ['i', 'n', 'f'] || text == ['n', 'a', 'n']

/-- A number with a point, an exponent or both. One that is too large is refused if it is positive. -/
def float? (text : List Char) : Option Json := do
  let (negative, rest) := unsigned text
  if isSpecial rest then return someFraction
  let (whole, rest) := rest.span fun c => c.isDigit || c == '_'
  let whole ← wholeNumber? whole
  let (fraction, rest) ←
    match rest with
    | '.' :: rest =>
      let (fraction, rest) := rest.span fun c => c.isDigit || c == '_'
      some (← digits? Char.isDigit fraction, rest)
    | 'e' :: _ | 'E' :: _ => some ([], rest)
    | _ => none
  let exponent ←
    match rest with
    | [] => some 0
    | c :: rest =>
      if c = 'e' ∨ c = 'E' then
        let (down, rest) := unsigned rest
        let value : Int := Text.decimalValue (← digits? Char.isDigit rest)
        some (if down then -value else value)
      else none
  match Number.Binary.ofDecimal? .double negative (Text.decimalValue (whole ++ fraction))
      (exponent - fraction.length) with
  | some value => some (.number (.double value))
  | none => if negative then some someFraction else none

def number2? (least greatest : Nat) : List Char → Option (Nat × List Char)
  | a :: b :: rest =>
    let value := Text.decimalValue [a, b]
    if a.isDigit ∧ b.isDigit ∧ least ≤ value ∧ value ≤ greatest then some (value, rest) else none
  | _ => none

def mark? (mark : Char) : List Char → Option (List Char)
  | c :: rest => if c = mark then some rest else none
  | [] => none

/-- What follows a date that exists. -/
def date? (text : List Char) : Option (List Char) := do
  let yearDigits := text.take 4
  guard (yearDigits.length = 4 ∧ yearDigits.all Char.isDigit)
  let year := Text.decimalValue yearDigits
  let (month, rest) ← number2? 1 12 (← mark? '-' (text.drop 4))
  let (day, rest) ← number2? 1 31 (← mark? '-' rest)
  guard (CalendarDay.isValid ⟨year, month, day⟩)
  return rest

/-- What follows a time of day. -/
def time? (text : List Char) : Option (List Char) := do
  let (_, rest) ← number2? 0 23 text
  let (_, rest) ← number2? 0 59 (← mark? ':' rest)
  let (_, rest) ← number2? 0 60 (← mark? ':' rest)
  match rest with
  | '.' :: more =>
    if more.head?.any Char.isDigit then some (more.dropWhile Char.isDigit) else none
  | _ => some rest

/-- What follows an offset from universal time. -/
def offset? : List Char → Option (List Char)
  | c :: rest =>
    if c = 'Z' ∨ c = 'z' then some rest
    else if c = '+' ∨ c = '-' then do
      let (_, rest) ← number2? 0 23 rest
      let (_, rest) ← number2? 0 59 (← mark? ':' rest)
      return rest
    else none
  | [] => none

def isTime (text : List Char) : Bool :=
  time? text == some []

/-- A time of day with or without an offset. -/
def isTimeWithOffset (text : List Char) : Bool :=
  match time? text with
  | some [] => true
  | some rest => offset? rest == some []
  | none => false

/-- A date, a time, or both with a mark between them. -/
def isMoment (text : List Char) : Bool :=
  isTime text ||
    match date? text with
    | some [] => true
    | some (c :: rest) => (c == 'T' || c == 't' || c == ' ') && isTimeWithOffset rest
    | none => false

/-- A moment is a record of its own, which has no field in common with any setting. -/
def moment (text : List Char) : Json :=
  .object [("moment", .string (String.ofList text))]

def isWordChar (c : Char) : Bool :=
  c.isAlphanum || c == '_' || c == '-' || c == '+' || c == '.' || c == ':'

/-- The characters of a value that is no string, array or table. One space may stand between a date and a time. -/
def splitWord (text : List Char) : List Char × List Char :=
  let (word, rest) := text.span isWordChar
  match rest with
  | ' ' :: more =>
    if date? word = some [] ∧ more.head?.any Char.isDigit then
      let (time, rest) := more.span isWordChar
      (word ++ ' ' :: time, rest)
    else (word, rest)
  | _ => (word, rest)

def word? (word : List Char) : Option Json :=
  if word = ['t', 'r', 'u', 'e'] then some (.bool true)
  else if word = ['f', 'a', 'l', 's', 'e'] then some (.bool false)
  else if isMoment word then some (moment word)
  else (integer? word).map (fun n => .number (.integer n)) <|> float? word

end Workflow.Toml
