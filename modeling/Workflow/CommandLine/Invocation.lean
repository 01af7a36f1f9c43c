import Workflow.CommandLine.Word
import Workflow.Graph.Export

/-! What a command line asks for. -/
namespace Workflow.CommandLine

/-- A command with its options. -/
inductive Command where
  | check (seed : KeySet) (json : Bool)
  | visibility (policy : Option VisibilityPolicy)
  | graph (format : GraphFormat) (options : Graph.Options)
  | plan
  /-- Replays the responses in a file, if one is given. -/
  | mockRun (responses : Option String) (input : String) (json : Bool)

structure Invocation where
  config : Option String
  command : Command
  /-- The file that holds the workflow. -/
  file : String

inductive Request where
  | version
  | help
  | run (invocation : Invocation)

inductive CommandName where
  | check
  | visibility
  | graph
  | plan
  | mockRun
deriving DecidableEq, Repr

namespace CommandName

def text : CommandName → String
  | .check => "check"
  | .visibility => "visibility"
  | .graph => "graph"
  | .plan => "plan"
  | .mockRun => "mock-run"

def ofText? (text : String) : Option CommandName :=
  [check, visibility, graph, plan, mockRun].find? fun name => name.text == text

/-- The switches that may follow the command. -/
def switches : CommandName → List Switch
  | .check => [.config, .help, .seed, .json]
  | .visibility => [.config, .help, .policy]
  | .graph => [.config, .help, .format, .details, .title]
  | .plan => [.config, .help]
  | .mockRun => [.config, .help, .responses, .input, .json]

end CommandName

/-- The switches that may stand in front of the command. -/
def leadingSwitches : List Switch :=
  [.config, .version, .help]

/-- Files have names, and some switches have a choice of values. -/
def Switch.accepts (value : String) : Switch → Bool
  | .config | .responses => value ≠ ""
  | .policy => (VisibilityPolicy.ofName? value).isSome
  | .format => (GraphFormat.ofName? value).isSome
  | _ => true

/-- The switches that were given, each with its value, in reverse. -/
abbrev Given := List (Switch × String)

namespace Given

def has (given : Given) (switch : Switch) : Bool :=
  (given.lookup switch).isSome

def value? (given : Given) (switch : Switch) : Option String :=
  given.lookup switch

def values (given : Given) (switch : Switch) : List String :=
  given.filterMap fun (other, value) => if other = switch then some value else none

end Given

/-- What has been read of a command line. -/
structure Reading where
  /-- The switches in front of the command. -/
  leading : Given
  command : Option CommandName
  /-- The switches after the command. -/
  given : Given
  file : Option String
  /-- The switch whose value comes next. -/
  pending : Option Switch
  /-- Whether only plain words may follow. -/
  escaped : Bool
  /-- A switch after which nothing counts. -/
  answer : Option Switch

namespace Reading

def start : Reading := ⟨[], none, [], none, none, false, none⟩

def switches (reading : Reading) : List Switch :=
  match reading.command with
  | none => leadingSwitches
  | some command => command.switches

/-- The switches on this side of the command. -/
def current (reading : Reading) : Given :=
  match reading.command with
  | none => reading.leading
  | some _ => reading.given

def give (reading : Reading) (switch : Switch) (value : String) : Option Reading := do
  guard (switch.accepts value)
  guard (switch.isRepeatable ∨ reading.current.has switch = false)
  let reading := { reading with pending := none }
  if switch.isFinal then return { reading with answer := some switch }
  match reading.command with
  | none => return { reading with leading := (switch, value) :: reading.leading }
  | some _ => return { reading with given := (switch, value) :: reading.given }

/-- Reads a switch with the text attached to it, if there is any. -/
def accept (reading : Reading) (switch : Switch) (attached : Option String) : Option Reading :=
  match switch.takesValue, attached with
  | true, some value => reading.give switch value
  | true, none => some { reading with pending := some switch }
  | false, none => reading.give switch ""
  | false, some _ => none

/-- The first plain word names the command and the second one the file. -/
def addPlain (reading : Reading) (text : String) : Option Reading :=
  match reading.command with
  | none => do
    guard ¬reading.escaped
    return { reading with command := some (← CommandName.ofText? text) }
  | some _ => do
    guard (reading.file.isNone ∧ text ≠ "")
    return { reading with file := some text }

/-- Reads a word that is not the value of the switch before it. -/
def addWord (reading : Reading) : Word → Option Reading
  | .escape => some { reading with escaped := true }
  | .plain text => reading.addPlain text
  | .long name attached => do
    let switch ← reading.switches.find? fun switch => switch.longName == name
    reading.accept switch attached
  | .short letter attached => do
    let switch ← reading.switches.find? fun switch => switch.letter? == some letter
    if switch.takesValue then reading.accept switch (Word.valueAfterLetter? attached)
    else reading.give switch ""

/-- Reads one word. A value that is a word of its own has the form of a plain one. -/
def step (reading : Reading) (text : String) : Option Reading :=
  if reading.answer.isSome then some reading
  else if reading.escaped then reading.addPlain text
  else
    match reading.pending, Word.ofText text with
    | none, word => reading.addWord word
    | some switch, .plain value => reading.give switch value
    | some _, _ => none

/-- The command that was read, its options completed by their defaults. -/
def complete (given : Given) : CommandName → Command
  | .check => .check (.ofList (given.values .seed)) (given.has .json)
  | .visibility => .visibility ((given.value? .policy).bind VisibilityPolicy.ofName?)
  | .graph =>
    .graph (((given.value? .format).bind GraphFormat.ofName?).getD .mermaid)
      ⟨given.has .details, given.value? .title⟩
  | .plan => .plan
  | .mockRun =>
    .mockRun (given.value? .responses) ((given.value? .input).getD "") (given.has .json)

/-- A configuration after the command goes before one in front of it. -/
def finish (reading : Reading) : Option Request := do
  match reading.answer with
  | some .version => return .version
  | some _ => return .help
  | none =>
    guard reading.pending.isNone
    return .run {
      config := reading.given.value? .config <|> reading.leading.value? .config
      command := complete reading.given (← reading.command)
      file := ← reading.file }

end Reading

/-- What a list of words asks for, or nothing if they are no command line. -/
def parse? (words : List String) : Option Request := do
  (← words.foldlM Reading.step .start).finish

end Workflow.CommandLine
