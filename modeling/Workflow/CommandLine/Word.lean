/-! The words of a command line by their form, and the switches that may be among them. -/
namespace Workflow.CommandLine

/-- A word of a command line. -/
inductive Word where
  /-- Two dashes alone: whatever follows is plain. -/
  | escape
  /-- Two dashes and a name, and the text after an equals sign if there is one. -/
  | long (name : String) (attached : Option String)
  /-- One dash and a letter, and the text after it. -/
  | short (letter : Char) (attached : List Char)
  | plain (text : String)
deriving DecidableEq, Repr

namespace Word

def ofText (text : String) : Word :=
  match text.toList with
  | ['-', '-'] => .escape
  | '-' :: '-' :: rest =>
    match rest.span (· ≠ '=') with
    | (name, _ :: value) => .long (String.ofList name) (some (String.ofList value))
    | (name, []) => .long (String.ofList name) none
  | '-' :: letter :: attached => .short letter attached
  | _ => .plain text

/-- The value that follows a letter in its word, with or without an equals sign. -/
def valueAfterLetter? : List Char → Option String
  | [] => none
  | '=' :: value => some (String.ofList value)
  | value => some (String.ofList value)

end Word

inductive Switch where
  | config
  | version
  | help
  | seed
  | json
  | policy
  | format
  | details
  | title
  | responses
  | input
deriving DecidableEq, Repr

namespace Switch

def longName : Switch → String
  | .config => "config"
  | .version => "version"
  | .help => "help"
  | .seed => "seed"
  | .json => "json"
  | .policy => "policy"
  | .format => "format"
  | .details => "details"
  | .title => "title"
  | .responses => "responses"
  | .input => "input"

def letter? : Switch → Option Char
  | .config => some 'c'
  | .version => some 'V'
  | .help => some 'h'
  | _ => none

/-- Whether the switch comes with a value. -/
def takesValue : Switch → Bool
  | .version | .help | .json | .details => false
  | .config | .seed | .policy | .format | .title | .responses | .input => true

/-- Whether the switch may be given more than once. -/
def isRepeatable : Switch → Bool
  | .seed => true
  | _ => false

/-- Whether nothing that follows the switch counts. -/
def isFinal : Switch → Bool
  | .version | .help => true
  | _ => false

end Switch

end Workflow.CommandLine
