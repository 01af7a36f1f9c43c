import Workflow.Text.Blank
import Workflow.Text.Digits
import Workflow.Timestamp.Basic

/-!
Reading timestamps: a date and a time of day with an offset, as RFC 3339 has them, with leeway in the
number of digits and in white space.
-/
namespace Workflow.Timestamp

/-- At least one digit and at most `width`, after white space. -/
def number? (width : Nat) (text : List Char) : Option (Nat × List Char) :=
  let text := Text.trimStart text
  let digits := (text.take width).takeWhile Char.isDigit
  if digits.isEmpty then none
  else some (Text.decimalValue digits, text.drop digits.length)

/-- Four digits at most, or any number of them after a sign. -/
def year? (text : List Char) : Option (Int × List Char) :=
  let text := Text.trimStart text
  let signed (sign : Int) (rest : List Char) : Option (Int × List Char) :=
    if rest.head?.any Char.isDigit then
      (number? rest.length rest).map fun (n, rest) => (sign * n, rest)
    else none
  match text with
  | '-' :: rest => signed (-1) rest
  | '+' :: rest => signed 1 rest
  | _ => (number? 4 text).map fun (n, rest) => (n, rest)

/-- A separator, after white space. -/
def separator? (separator : Char) (text : List Char) : Option (List Char) :=
  match Text.trimStart text with
  | c :: rest => if c = separator then some rest else none
  | [] => none

def date? (text : List Char) : Option (CalendarDay × List Char) := do
  let (year, text) ← year? text
  let text ← separator? '-' text
  let (month, text) ← number? 2 text
  let text ← separator? '-' text
  let (day, text) ← number? 2 text
  guard (CalendarDay.isValid ⟨year, month, day⟩)
  return (⟨year, month, day⟩, text)

/-- The digits after a point as nanoseconds; those beyond the ninth are dropped. -/
def fraction? : List Char → Option (Nat × List Char)
  | '.' :: rest =>
    let digits := rest.takeWhile Char.isDigit
    if digits.isEmpty then none
    else
      let nine := (digits ++ List.replicate 9 '0').take 9
      some (Text.decimalValue nine, rest.drop digits.length)
  | text => some (0, text)

/-- The second of the day, and the nanoseconds in it. Second sixty is a leap second. -/
def timeOfDay? (text : List Char) : Option ((Nat × Nat) × List Char) := do
  let (hour, text) ← number? 2 text
  let text ← separator? ':' text
  let (minute, text) ← number? 2 text
  let text ← separator? ':' text
  let (second, text) ← number? 2 text
  let (nanoseconds, text) ← fraction? text
  guard (hour < 24 ∧ minute < 60 ∧ second ≤ 60)
  let start := hour * 3600 + minute * 60
  return (if second = 60 then (start + 59, 1000000000 + nanoseconds) else (start + second, nanoseconds), text)

def twoDigits? : List Char → Option (Nat × List Char)
  | a :: b :: rest =>
    if a.isDigit ∧ b.isDigit then some (Text.decimalValue [a, b], rest) else none
  | _ => none

/-- The offset from universal time in seconds: `UTC`, `Z`, or a sign with hours and minutes. -/
def offset? (text : List Char) : Option (Int × List Char) :=
  if (text.take 3).map Char.toUpper = ['U', 'T', 'C'] then some (0, text.drop 3)
  else
    match text with
    | c :: rest =>
      if c = 'Z' ∨ c = 'z' then some (0, rest)
      else if c = '+' then distance? 1 rest
      else if c = '-' ∨ c = '\u2212' then distance? (-1) rest
      else none
    | [] => none
where
  distance? (sign : Int) (text : List Char) : Option (Int × List Char) := do
    let (hours, text) ← twoDigits? text
    let (minutes, text) ← twoDigits? (text.dropWhile fun c => c = ':' || Text.isBlank c)
    guard (minutes < 60 ∧ hours < 24)
    return (sign * (hours * 3600 + minutes * 60 : Nat), text)

def parse? (text : String) : Option Timestamp := do
  let (date, rest) ← date? text.toList
  let rest ←
    match rest with
    | c :: rest => if c = 'T' ∨ c = 't' ∨ c = ' ' then some rest else none
    | [] => none
  let ((second, nanoseconds), rest) ← timeOfDay? rest
  let (offset, rest) ← offset? (Text.trimStart rest)
  guard (Text.trimStart rest = [])
  let seconds := date.toDays * 86400 + second - offset
  guard (-262143 ≤ date.year ∧ date.year ≤ 262142)
  guard (earliest ≤ seconds ∧ seconds < latest)
  return ⟨seconds, nanoseconds⟩

end Workflow.Timestamp
