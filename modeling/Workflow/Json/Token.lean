import Workflow.Json.Basic
import Workflow.Number.Scaling

/-! The words of JSON text. -/
namespace Workflow.Json

inductive Token where
  | openArray
  | closeArray
  | openObject
  | closeObject
  | comma
  | colon
  | string (text : String)
  | literal (value : Json)

namespace Token

def isSpace (c : Char) : Bool :=
  c == ' ' || c == '\t' || c == '\n' || c == '\r'

def isPunctuation (c : Char) : Bool :=
  c == '[' || c == ']' || c == '{' || c == '}' || c == ',' || c == ':'

/-- The number that four hexadecimal digits name. -/
def codeUnit? (a b c d : Char) : Option Nat := do
  return Text.positionalValue 16 (← [a, b, c, d].mapM Text.hexDigit?)

def escaped? : Char → Option Char
  | '"' => some '"'
  | '\\' => some '\\'
  | '/' => some '/'
  | 'b' => some '\x08'
  | 'f' => some '\x0c'
  | 'n' => some '\n'
  | 'r' => some '\r'
  | 't' => some '\t'
  | _ => none

/-- The text that stands between quotation marks, its escapes resolved. Characters beyond the sixteen-bit
range are written as a pair of surrogates; a surrogate alone is refused. -/
def unescape : List Char → Option (List Char)
  | [] => some []
  | '\\' :: 'u' :: a :: b :: c :: d :: '\\' :: 'u' :: e :: f :: g :: h :: rest => do
    let unit ← codeUnit? a b c d
    if 0xd800 ≤ unit ∧ unit < 0xdc00 then
      let low ← codeUnit? e f g h
      guard (0xdc00 ≤ low ∧ low < 0xe000)
      return Char.ofNat (0x10000 + (unit - 0xd800) * 0x400 + (low - 0xdc00)) :: (← unescape rest)
    else
      guard ¬(0xdc00 ≤ unit ∧ unit < 0xe000)
      return Char.ofNat unit :: (← unescape ('\\' :: 'u' :: e :: f :: g :: h :: rest))
  | '\\' :: 'u' :: a :: b :: c :: d :: rest => do
    let unit ← codeUnit? a b c d
    guard ¬(0xd800 ≤ unit ∧ unit < 0xe000)
    return Char.ofNat unit :: (← unescape rest)
  | '\\' :: c :: rest => do return (← escaped? c) :: (← unescape rest)
  | c :: rest => do
    guard (c ≠ '\\' ∧ ' ' ≤ c)
    return c :: (← unescape rest)

/-- An optional sign and at least one digit, to the end of the text. -/
def exponent? (text : List Char) : Option Int :=
  let (negative, digits) :=
    match text with
    | '-' :: rest => (true, rest)
    | '+' :: rest => (false, rest)
    | _ => (false, text)
  if digits.isEmpty || !digits.all Char.isDigit then none
  else some (if negative then -(Text.decimalValue digits : Int) else Text.decimalValue digits)

/-- A number without point and exponent is an integer if it fits into sixty-four bits; minus zero and
all other numbers are doubles, and one beyond the largest is refused. -/
def number? (text : List Char) : Option Number := do
  let (negative, unsigned) :=
    match text with
    | '-' :: rest => (true, rest)
    | _ => (false, text)
  let (whole, rest) := unsigned.span Char.isDigit
  guard (whole ≠ [] ∧ (whole.head? ≠ some '0' ∨ whole = ['0']))
  let (fraction, rest) ←
    match rest with
    | '.' :: rest =>
      let (fraction, rest) := rest.span Char.isDigit
      if fraction.isEmpty then none else some (some fraction, rest)
    | _ => some (none, rest)
  let exponent ←
    match rest with
    | [] => some none
    | c :: rest => if c = 'e' ∨ c = 'E' then (exponent? rest).map some else none
  let value := Text.decimalValue whole
  let integral := fraction.isNone && exponent.isNone
  if integral ∧ !negative ∧ value < UInt64.size then return .integer value
  else if integral ∧ negative ∧ value ≠ 0 ∧ value ≤ UInt64.size / 2 then return .integer (-value)
  else
    return .double (← Number.Binary.ofDigits? negative whole (fraction.getD []) (exponent.getD 0))

def literal? (text : List Char) : Option Json :=
  if text = ['n', 'u', 'l', 'l'] then some .null
  else if text = ['t', 'r', 'u', 'e'] then some (.bool true)
  else if text = ['f', 'a', 'l', 's', 'e'] then some (.bool false)
  else (number? text).map .number

/-- Where the reader stands: between words, inside quotation marks, or inside a word without them. What
has been read of the word is in reverse. -/
inductive Position where
  | between
  | quoted (done : List Char) (escaping : Bool)
  | bare (done : List Char)

/-- The words that are complete, in reverse, and the position after them. -/
structure Scan where
  tokens : List Token
  position : Position

/-- Reads a character that begins a word or stands between words. -/
def start (tokens : List Token) (c : Char) : Scan :=
  if isSpace c then ⟨tokens, .between⟩
  else if c = '[' then ⟨.openArray :: tokens, .between⟩
  else if c = ']' then ⟨.closeArray :: tokens, .between⟩
  else if c = '{' then ⟨.openObject :: tokens, .between⟩
  else if c = '}' then ⟨.closeObject :: tokens, .between⟩
  else if c = ',' then ⟨.comma :: tokens, .between⟩
  else if c = ':' then ⟨.colon :: tokens, .between⟩
  else if c = '"' then ⟨tokens, .quoted [] false⟩
  else ⟨tokens, .bare [c]⟩

def step (scan : Scan) (c : Char) : Option Scan :=
  match scan.position with
  | .between => some (start scan.tokens c)
  | .quoted done true => some ⟨scan.tokens, .quoted (c :: done) false⟩
  | .quoted done false =>
    if c = '"' then do
      let text ← unescape done.reverse
      return ⟨.string (String.ofList text) :: scan.tokens, .between⟩
    else some ⟨scan.tokens, .quoted (c :: done) (c = '\\')⟩
  | .bare done =>
    if isSpace c ∨ isPunctuation c ∨ c = '"' then do
      let value ← literal? done.reverse
      return start (.literal value :: scan.tokens) c
    else some ⟨scan.tokens, .bare (c :: done)⟩

/-- The words of a text, or nothing if some part of it is no word. -/
def ofText? (text : List Char) : Option (List Token) := do
  let scan ← text.foldlM step ⟨[], .between⟩
  match scan.position with
  | .between => return scan.tokens.reverse
  | .quoted .. => none
  | .bare done => return (.literal (← literal? done.reverse) :: scan.tokens).reverse

end Token

end Workflow.Json
