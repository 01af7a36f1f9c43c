import Workflow.Log

/-! References to environment variables inside of a text. -/
namespace Workflow.Environment

/-- A piece of a text with references: a character, or the name between a dollar with an opening brace and the
next closing brace. -/
inductive Piece where
  | character (c : Char)
  | reference (name : List Char)
deriving DecidableEq

/-- The pieces of a text. While a reference is open its name so far is there in reverse; one that is never closed
goes to the end of the text. -/
def pieces : Option (List Char) → List Char → List Piece
  | none, [] => []
  | none, '$' :: '{' :: rest => pieces (some []) rest
  | none, c :: rest => .character c :: pieces none rest
  | some name, [] => [.reference name.reverse]
  | some name, c :: rest =>
    if c = '}' then .reference name.reverse :: pieces none rest
    else pieces (some (c :: name)) rest

/-- The value of a variable; a reference to one that is not set is written again. -/
def Piece.expand (value : String → Option String) : Piece → List Char
  | .character c => [c]
  | .reference name =>
    match value (String.ofList name) with
    | some text => text.toList
    | none => '$' :: '{' :: name ++ ['}']

def Piece.warning (value : String → Option String) : Piece → Log
  | .character _ => []
  | .reference name =>
    match value (String.ofList name) with
    | some _ => []
    | none =>
      [⟨.warn, "Config references unset environment variable", [("var", String.ofList name)]⟩]

/-- The names that a text refers to. -/
def references (text : String) : List String :=
  (pieces none text.toList).filterMap fun piece =>
    match piece with
    | .character _ => none
    | .reference name => some (String.ofList name)

/-- The text with the values of the variables in place of the references. Values are not looked at again. -/
def expand (value : String → Option String) (text : String) : String :=
  String.ofList ((pieces none text.toList).flatMap (Piece.expand value))

/-- A warning for each reference to a variable that is not set. -/
def warnings (value : String → Option String) (text : String) : Log :=
  (pieces none text.toList).flatMap (Piece.warning value)

end Workflow.Environment
