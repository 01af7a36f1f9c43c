import Workflow.Toml.Scalar
import Workflow.Toml.Table

/-! Reading TOML text. -/
namespace Workflow.Toml

def isBareKeyChar (c : Char) : Bool :=
  c.isAlphanum || c == '_' || c == '-'

def simpleKey? (text : List Char) : Option (String × List Char) :=
  match text with
  | '"' :: rest => (basicString? rest).map fun (key, rest) => (String.ofList key, rest)
  | '\'' :: rest => (literalString? rest).map fun (key, rest) => (String.ofList key, rest)
  | _ =>
    let (key, rest) := text.span isBareKeyChar
    if key.isEmpty then none else some (String.ofList key, rest)

/-- Keys with points between them, and the space around each. There are at most as many as `limit`. -/
def keyPath? : (limit : Nat) → List Char → Option (List String × List Char)
  | 0, _ => none
  | limit + 1, text => do
    let (key, rest) ← simpleKey? (skipSpace text)
    match skipSpace rest with
    | '.' :: rest =>
      let (path, rest) ← keyPath? limit rest
      return (key :: path, rest)
    | rest => return ([key], rest)

/-- Keys, arrays and inline tables nest less deep than this. -/
def depthLimit : Nat := 80

def path? (text : List Char) : Option (List String × List Char) :=
  keyPath? (depthLimit - 1) text

mutual

/-- A value. Its text has at least as many characters as there are calls inside of one another, so that the length
of the text bounds the `rounds`; arrays and tables take from `depth`. -/
def value? : (rounds depth : Nat) → List Char → Option (Json × List Char)
  | 0, _, _ => none
  | rounds + 1, depth, text =>
    match text with
    | '[' :: rest =>
      match depth with
      | 0 => none
      | depth + 1 => (elements? rounds depth rest).map fun (elements, rest) => (.array elements, rest)
    | '{' :: rest =>
      match depth with
      | 0 => none
      | depth + 1 => inlineTable? rounds depth rest
    | '"' :: _ | '\'' :: _ =>
      (string? text).map fun (string, rest) => (.string (String.ofList string), rest)
    | _ =>
      let (word, rest) := splitWord text
      (word? word).map fun value => (value, rest)

/-- The elements of an array up to its bracket, with a comma after each but the last. -/
def elements? : (rounds depth : Nat) → List Char → Option (List Json × List Char)
  | 0, _, _ => none
  | rounds + 1, depth, text =>
    match skipLines false text with
    | ']' :: rest => some ([], rest)
    | text => do
      let (value, rest) ← value? rounds depth text
      match skipLines false rest with
      | ',' :: rest =>
        let (values, rest) ← elements? rounds depth rest
        return (value :: values, rest)
      | ']' :: rest => return ([value], rest)
      | _ => none

def inlineTable? : (rounds depth : Nat) → List Char → Option (Json × List Char)
  | 0, _, _ => none
  | rounds + 1, depth, text =>
    match skipSpace text with
    | '}' :: rest => some (.object [], rest)
    | text => do
      let (table, rest) ← inlineEntries? rounds depth .empty text
      return (table.toJson, rest)

/-- The entries of an inline table up to its brace, with commas between them. -/
def inlineEntries? : (rounds depth : Nat) → Table → List Char → Option (Table × List Char)
  | 0, _, _, _ => none
  | rounds + 1, depth, table, text => do
    let (path, rest) ← path? text
    let (value, rest) ← value? rounds depth (skipSpace (← mark? '=' rest))
    let table ← table.define path value
    match skipSpace rest with
    | ',' :: rest => inlineEntries? rounds depth table rest
    | '}' :: rest => return (table, rest)
    | _ => none

end

/-- One line that says something. -/
inductive Statement where
  | table (path : List String)
  | arrayElement (path : List String)
  | define (path : List String) (value : Json)

/-- A statement and what follows its line. -/
def statement? (text : List Char) : Option (Statement × List Char) := do
  match text with
  | '[' :: '[' :: rest =>
    let (path, rest) ← path? rest
    let rest ← mark? ']' (← mark? ']' rest)
    return (.arrayElement path, ← lineTrailing? rest)
  | '[' :: rest =>
    let (path, rest) ← path? rest
    return (.table path, ← lineTrailing? (← mark? ']' rest))
  | _ =>
    let (path, rest) ← path? text
    let rest := skipSpace (← mark? '=' rest)
    let (value, rest) ← value? (rest.length + 1) (depthLimit - 1) rest
    return (.define path value, ← lineTrailing? rest)

/-- All statements. Each line has at least one character, so that the length of the text bounds the `rounds`. -/
def statements? : (rounds : Nat) → List Char → Option (List Statement)
  | 0, _ => none
  | rounds + 1, text =>
    match skipSpace text with
    | [] => some []
    | c :: rest =>
      if c = '#' ∨ c = '\n' ∨ c = '\r' then do
        statements? rounds (← lineTrailing? (c :: rest))
      else do
        let (statement, rest) ← statement? (c :: rest)
        return statement :: (← statements? rounds rest)

/-- A document under construction: the whole of it, and the path of the table that definitions go into. -/
structure Builder where
  root : Table
  current : List String

def Builder.add (builder : Builder) : Statement → Option Builder
  | .table path => (builder.root.openTable path).map fun root => ⟨root, path⟩
  | .arrayElement path => (builder.root.appendElement path).map fun root => ⟨root, path⟩
  | .define path value =>
    (builder.root.defineIn builder.current path value).map fun root => { builder with root := root }

/-- The document that a text stands for, without a mark for the order of bytes. -/
def parse? (text : List Char) : Option Json := do
  let text := if text.head? = some '\ufeff' then text.tail else text
  let statements ← statements? (text.length + 1) text
  let builder ← statements.foldlM Builder.add ⟨.empty, []⟩
  return builder.root.toJson

end Workflow.Toml
