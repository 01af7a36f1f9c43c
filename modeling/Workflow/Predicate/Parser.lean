import Workflow.Error
import Workflow.Json.Parser
import Workflow.Predicate.Basic
import Workflow.Text.Alphanumeric
import Workflow.Text.Blank

/-!
The textual form of a predicate: `key`, `!key`, `key == value`, `key != value` or
`key contains text`.
-/
namespace Workflow.Predicate

def isIdentifierChar (c : Char) : Bool :=
  Text.isAlphanumeric c || c == '_' || c == ':' || c == '.' || c == '-'

def isIdentifier (text : List Char) : Bool :=
  !text.isEmpty && text.all isIdentifierChar

/-- The text before and after the first place where the operator stands. -/
def splitOnce? (operator : List Char) : List Char → Option (List Char × List Char)
  | [] => if operator.isEmpty then some ([], []) else none
  | c :: rest =>
    match operator.isPrefixOf? (c :: rest) with
    | some after => some ([], after)
    | none => (splitOnce? operator rest).map fun (before, after) => (c :: before, after)

/-- The key before the operator and the trimmed text after it. -/
def splitComparison? (operator : List Char) (text : List Char) : Option (String × List Char) := do
  let (before, after) ← splitOnce? operator text
  let key := Text.trim before
  guard (isIdentifier key)
  return (String.ofList key, Text.trim after)

/-- The text between two quotation marks, taken as it stands. -/
def betweenQuotes? : List Char → Option (List Char)
  | '"' :: rest => if rest.getLast? = some '"' then some rest.dropLast else none
  | _ => none

/-- Text in quotation marks is a string; other text is a JSON value if it reads as one, and else a string. -/
def literal (text : List Char) : Json :=
  match betweenQuotes? text with
  | some inner => .string (String.ofList inner)
  | none => (Json.parse? text).getD (.string (String.ofList text))

/-- The operators are tried in a fixed order; one whose left side is no key is passed over. -/
def ofTrimmed? (text : List Char) : Option Predicate :=
  containment? <|> difference? <|> equality? <|> negation? <|> truth?
where
  containment? := do
    let (key, value) ← splitComparison? [' ', 'c', 'o', 'n', 't', 'a', 'i', 'n', 's', ' '] text
    return .contains key (literal value).display
  difference? := do
    let (key, value) ← splitComparison? ['!', '='] text
    return .not (.equals key (literal value))
  equality? := do
    let (key, value) ← splitComparison? ['=', '='] text
    return .equals key (literal value)
  negation? :=
    match text with
    | '!' :: rest =>
      let key := Text.trim rest
      if isIdentifier key then some (.not (.truthy (String.ofList key))) else none
    | _ => none
  truth? :=
    if isIdentifier text then some (.truthy (String.ofList text)) else none

def parse (expression : String) : Except Error Predicate :=
  let text := Text.trim expression.toList
  if text.isEmpty then .error (.invalidPredicate "empty expression")
  else
    match ofTrimmed? text with
    | some predicate => .ok predicate
    | none => .error (.invalidPredicate (String.ofList text))

end Workflow.Predicate
