import Workflow.Text.Digits

/-! Characters, line ends and strings of TOML text. -/
namespace Workflow.Toml

def isSpace (c : Char) : Bool :=
  c == ' ' || c == '\t'

/-- Characters that may stand in a comment: all but controls, the tab excepted. -/
def isPlain (c : Char) : Bool :=
  c == '\t' || (' ' ≤ c && c ≠ '\x7f')

def skipSpace (text : List Char) : List Char :=
  text.dropWhile isSpace

/-- What follows the end of a line, which is a line feed with or without a carriage return. -/
def newline? : List Char → Option (List Char)
  | '\n' :: rest => some rest
  | '\r' :: '\n' :: rest => some rest
  | _ => none

def lineEnd? : List Char → Option (List Char)
  | [] => some []
  | text => newline? text

def skipComment : List Char → List Char
  | '#' :: rest => rest.dropWhile isPlain
  | text => text

/-- Space and a comment up to the end of the line. -/
def lineTrailing? (text : List Char) : Option (List Char) :=
  lineEnd? (skipComment (skipSpace text))

/-- Drops space, line ends and comments. -/
def skipLines (inComment : Bool) : List Char → List Char
  | [] => []
  | '\r' :: '\n' :: rest => skipLines false rest
  | c :: rest =>
    if c = '\n' then skipLines false rest
    else if inComment then if isPlain c then skipLines true rest else c :: rest
    else if isSpace c then skipLines false rest
    else if c = '#' then skipLines true rest
    else c :: rest

/-- The character whose code point the digits name. -/
def codePoint? (digits : List Char) : Option Char := do
  let value := Text.positionalValue 16 (← digits.mapM Text.hexDigit?)
  if value.isValidChar then some (.ofNat value) else none

def escaped? : Char → Option Char
  | 'b' => some '\x08'
  | 't' => some '\t'
  | 'n' => some '\n'
  | 'f' => some '\x0c'
  | 'r' => some '\r'
  | '"' => some '"'
  | '\\' => some '\\'
  | _ => none

/-- Puts a character in front of a text that has been read. -/
def before (c : Char) (read : Option (List Char × List Char)) : Option (List Char × List Char) :=
  read.map fun (text, rest) => (c :: text, rest)

/-- The rest of a string on one line, behind its quotation mark. -/
def basicString? : List Char → Option (List Char × List Char)
  | [] => none
  | '"' :: rest => some ([], rest)
  | '\\' :: 'u' :: a :: b :: c :: d :: rest =>
    (codePoint? [a, b, c, d]).bind fun read => before read (basicString? rest)
  | '\\' :: 'U' :: a :: b :: c :: d :: e :: f :: g :: h :: rest =>
    (codePoint? [a, b, c, d, e, f, g, h]).bind fun read => before read (basicString? rest)
  | '\\' :: c :: rest => (escaped? c).bind fun read => before read (basicString? rest)
  | c :: rest => if isPlain c then before c (basicString? rest) else none

/-- The rest of a string without escapes on one line, behind its apostrophe. -/
def literalString? : List Char → Option (List Char × List Char)
  | [] => none
  | '\'' :: rest => some ([], rest)
  | c :: rest => if isPlain c then before c (literalString? rest) else none

/-- The end of a string over several lines, behind the three marks that close it: up to two more marks belong to
its text. -/
def closing (mark : Char) : List Char → List Char × List Char
  | c :: d :: rest =>
    if c = mark then if d = mark then ([mark, mark], rest) else ([mark], d :: rest)
    else ([], c :: d :: rest)
  | [c] => if c = mark then ([mark], []) else ([], [c])
  | [] => ([], [])

/-- Whether nothing but space stands before the end of the line. -/
def endsLine (text : List Char) : Bool :=
  (newline? (skipSpace text)).isSome

/-- The rest of a string over several lines. A backslash at the end of a line drops all space and line ends that
follow; while that goes on, `dropping` is true. -/
def multilineBasic? (dropping : Bool) : List Char → Option (List Char × List Char)
  | [] => none
  | '"' :: '"' :: '"' :: rest => some (closing '"' rest)
  | '\r' :: '\n' :: rest =>
    if dropping then multilineBasic? true rest else before '\n' (multilineBasic? false rest)
  | '\\' :: 'u' :: a :: b :: c :: d :: rest =>
    (codePoint? [a, b, c, d]).bind fun read => before read (multilineBasic? false rest)
  | '\\' :: 'U' :: a :: b :: c :: d :: e :: f :: g :: h :: rest =>
    (codePoint? [a, b, c, d, e, f, g, h]).bind fun read => before read (multilineBasic? false rest)
  | '\\' :: c :: rest =>
    if endsLine (c :: rest) then multilineBasic? true (c :: rest)
    else (escaped? c).bind fun read => before read (multilineBasic? false rest)
  | c :: rest =>
    if dropping ∧ (isSpace c ∨ c = '\n') then multilineBasic? true rest
    else if isPlain c ∨ c = '\n' then before c (multilineBasic? false rest)
    else none

/-- The rest of a string without escapes over several lines. -/
def multilineLiteral? : List Char → Option (List Char × List Char)
  | [] => none
  | '\'' :: '\'' :: '\'' :: rest => some (closing '\'' rest)
  | '\r' :: '\n' :: rest => before '\n' (multilineLiteral? rest)
  | c :: rest => if isPlain c ∨ c = '\n' then before c (multilineLiteral? rest) else none

/-- A line end right behind the opening marks does not belong to the text. -/
def dropFirstLineEnd (text : List Char) : List Char :=
  (newline? text).getD text

/-- A string of any of the four kinds. -/
def string? : List Char → Option (List Char × List Char)
  | '"' :: '"' :: '"' :: rest => multilineBasic? false (dropFirstLineEnd rest)
  | '"' :: rest => basicString? rest
  | '\'' :: '\'' :: '\'' :: rest => multilineLiteral? (dropFirstLineEnd rest)
  | '\'' :: rest => literalString? rest
  | _ => none

end Workflow.Toml
