import Workflow.CommandLine.Invocation
import Workflow.Compile
import Workflow.Config.Load
import Workflow.Event.Document
import Workflow.Json.Parser

/-! Carrying out what a command line asks for. -/
namespace Workflow.CommandLine

/-- What a command can see of the world around it. -/
structure Surroundings where
  file : String → Option ByteArray
  /-- The environment variables. -/
  setting : String → Option String
  /-- Fresh identifiers. -/
  identifier : Nat → String
  now : Timestamp

/-- What a command prints, and why it failed if it did. -/
structure Outcome where
  output : String
  failure : Option String
deriving DecidableEq, Repr

namespace Outcome

def exitCode (outcome : Outcome) : UInt32 :=
  if outcome.failure.isSome then 1 else 0

def printed (output : String) : Outcome := ⟨output, none⟩

def ofExcept : Except String Outcome → Outcome
  | .ok outcome => outcome
  | .error reason => ⟨"", some reason⟩

end Outcome

/-- The exit code for words that are no command line. -/
def usageCode : UInt32 := 2

def versionText : String := "trellis 0.3.1\n"

def helpText : String :=
  "trellis [-c CONFIG] check FILE [--seed KEY]... [--json]\n" ++
  "trellis [-c CONFIG] visibility FILE [--policy POLICY]\n" ++
  "trellis [-c CONFIG] graph FILE [--format FORMAT] [--details] [--title TITLE]\n" ++
  "trellis [-c CONFIG] plan FILE\n" ++
  "trellis [-c CONFIG] mock-run FILE [--responses FILE] [--input TEXT] [--json]\n" ++
  "trellis --version\n"

def line (text : String) : String :=
  text ++ "\n"

def lines (texts : List String) : String :=
  String.join (texts.map line)

namespace Surroundings

def loadConfig (surroundings : Surroundings) : Option String → Except String Config
  | none => .ok .default
  | some path =>
    (Config.load surroundings.setting (surroundings.file path)).2.mapError (LoadError.message path)

def readJson (surroundings : Surroundings) (path : String) : Except String Json := do
  let some text := (surroundings.file path).bind String.fromUTF8?
    | throw ("Failed to read " ++ path)
  let some json := Json.parse? text.toList
    | throw ("Invalid JSON in " ++ path)
  return json

def readTree (surroundings : Surroundings) (path : String) : Except String Node := do
  let some root := Node.ofJson? .outer (← surroundings.readJson path)
    | throw (path ++ " is not a workflow IR document")
  return root

def readResponses (surroundings : Surroundings) : Option String → Except String ResponseTable
  | none => .ok ∅
  | some path => do
    (ResponseTable.ofJson (← surroundings.readJson path)).mapError (·.message)

/-- Gives the events of a run their identities and their time. -/
def stamp (surroundings : Surroundings) (events : List Event) : List Event :=
  events.mapIdx fun i event =>
    { event with id := surroundings.identifier (i + 1), timestamp := surroundings.now }

end Surroundings

/-- How many findings there are of each level. -/
def tally (diagnostics : List Diagnostic) : String :=
  let count (level : DiagnosticLevel) : String :=
    (diagnostics.countP fun diagnostic => diagnostic.level == level).repr
  count .error ++ " error(s), " ++ count .warning ++ " warning(s), " ++ count .info ++ " info"

def reportCheck (diagnostics : List Diagnostic) (json : Bool) (file : String) : Outcome where
  output :=
    if json then line (Json.array (diagnostics.map (·.toJson))).prettyText
    else lines (diagnostics.map (·.display) ++ [tally diagnostics])
  failure :=
    if Diagnostic.hasErrors diagnostics then
      some ((Diagnostic.errors diagnostics).length.repr ++ " contract error(s) in " ++ file)
    else none

/-- What is shown of an event; one without any news is passed over. -/
def eventLine? (event : Event) : Option String :=
  let shown (text : String) : Option String := some ("[" ++ event.author ++ "] " ++ text)
  match event.failure, event.content with
  | some failure, _ => shown ("failed: " ++ failure.message)
  | none, some text => shown text
  | none, none =>
    if event.actions.stateDelta.isEmpty then none
    else shown ("state " ++ event.actions.stateDelta.toJson.compactText)

def reportEvents (events : List Event) (json : Bool) : String :=
  if json then line (Json.array (events.map (·.toJson))).prettyText
  else lines (events.filterMap eventLine?)

def runCommand (surroundings : Surroundings) (config : Config) (file : String) :
    Command → Except String Outcome
  | .check seed json => do
    let root ← surroundings.readTree file
    return reportCheck (checkWith root seed) json file
  | .visibility policy => do
    let root ← surroundings.readTree file
    return .printed (line (inferVisibility root (policy.getD config.visibility)).toJson.prettyText)
  | .graph format options => do
    let root ← surroundings.readTree file
    return .printed (exportGraph format options root)
  | .plan => do
    let root ← surroundings.readTree file
    let compilation ← (compileChecked .dryRun root config).mapError (·.message)
    return .printed (line compilation.artifact.toJson.prettyText)
  | .mockRun responses message json => do
    let root ← surroundings.readTree file
    let backend := Backend.mock (← surroundings.readResponses responses)
    let compilation ← (compileChecked backend root config).mapError (·.message)
    let turn : Turn := ⟨surroundings.identifier 0, message⟩
    let events ← (backend.run compilation.artifact turn).mapError (·.message)
    let shown := (compilation.eventFilter config).applyAll (surroundings.stamp events)
    return .printed (reportEvents shown json)

/-- The configuration is loaded before the workflow. -/
def Invocation.run (invocation : Invocation) (surroundings : Surroundings) : Outcome :=
  .ofExcept do
    let config ← surroundings.loadConfig invocation.config
    runCommand surroundings config invocation.file invocation.command

/-- The files that an invocation may look at. -/
def Invocation.files (invocation : Invocation) : List String :=
  invocation.config.toList ++ invocation.file ::
    match invocation.command with
    | .mockRun responses _ _ => responses.toList
    | _ => []

end Workflow.CommandLine
