import Workflow.Json.Basic
import Workflow.Number.Text

/-! Writing JSON text, on one line or indented. -/
namespace Workflow

def Number.text : Number → List Char
  | .integer n => integerText n
  | .double x => x.text .double
  | .single x => x.text .single

namespace Json

/-- The hexadecimal digits of a control character, padded to four. -/
def controlEscape (c : Char) : List Char :=
  ['\\', 'u', '0', '0', Nat.digitChar (c.toNat / 16), Nat.digitChar (c.toNat % 16)]

/-- Only quotation marks, backslashes and controls are escaped. -/
def escapeChar (c : Char) : List Char :=
  if c = '"' then ['\\', '"']
  else if c = '\\' then ['\\', '\\']
  else if c = '\x08' then ['\\', 'b']
  else if c = '\t' then ['\\', 't']
  else if c = '\n' then ['\\', 'n']
  else if c = '\x0c' then ['\\', 'f']
  else if c = '\r' then ['\\', 'r']
  else if c < ' ' then controlEscape c
  else [c]

def quote (text : String) : List Char :=
  '"' :: text.toList.flatMap escapeChar ++ ['"']

def literalText : Bool → List Char
  | true => ['t', 'r', 'u', 'e']
  | false => ['f', 'a', 'l', 's', 'e']

mutual

/-- The text without any space. -/
def compact : Json → List Char
  | .null => ['n', 'u', 'l', 'l']
  | .bool value => literalText value
  | .number value => value.text
  | .string text => quote text
  | .array [] => ['[', ']']
  | .array (first :: rest) => '[' :: (compact first ++ compactElements rest)
  | .object [] => ['{', '}']
  | .object ((name, value) :: rest) =>
    '{' :: (quote name ++ ':' :: (compact value ++ compactFields rest))

def compactElements : List Json → List Char
  | [] => [']']
  | value :: rest => ',' :: (compact value ++ compactElements rest)

def compactFields : List (String × Json) → List Char
  | [] => ['}']
  | (name, value) :: rest => ',' :: (quote name ++ ':' :: (compact value ++ compactFields rest))

end

def newline (depth : Nat) : List Char :=
  '\n' :: List.replicate (2 * depth) ' '

mutual

/-- Elements and fields on lines of their own, indented by two spaces for each level. -/
def indented (depth : Nat) : Json → List Char
  | .null => ['n', 'u', 'l', 'l']
  | .bool value => literalText value
  | .number value => value.text
  | .string text => quote text
  | .array [] => ['[', ']']
  | .array (first :: rest) =>
    '[' :: (newline (depth + 1) ++ indented (depth + 1) first ++ indentedElements depth rest)
  | .object [] => ['{', '}']
  | .object ((name, value) :: rest) =>
    '{' :: (newline (depth + 1) ++ quote name ++ ':' :: ' ' :: indented (depth + 1) value ++
      indentedFields depth rest)

def indentedElements (depth : Nat) : List Json → List Char
  | [] => newline depth ++ [']']
  | value :: rest =>
    ',' :: (newline (depth + 1) ++ indented (depth + 1) value ++ indentedElements depth rest)

def indentedFields (depth : Nat) : List (String × Json) → List Char
  | [] => newline depth ++ ['}']
  | (name, value) :: rest =>
    ',' :: (newline (depth + 1) ++ quote name ++ ':' :: ' ' :: indented (depth + 1) value ++
      indentedFields depth rest)

end

def compactText (json : Json) : String :=
  String.ofList json.compact

def prettyText (json : Json) : String :=
  String.ofList (json.indented 0)

end Json

end Workflow
