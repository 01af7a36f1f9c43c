import Std.Time.DateTime.Timestamp
import Workflow.CommandLine.Identifier
import Workflow.CommandLine.Run

/-! The command line program. -/
namespace Workflow.Main

open CommandLine

def readFile (path : String) : IO (Option ByteArray) := do
  try
    return some (← IO.FS.readBinFile path)
  catch _ =>
    return none

/-- Reads the environment variables that a file refers to. -/
def readSettings (file : Option ByteArray) : IO (List (String × Option String)) := do
  match file.bind String.fromUTF8? with
  | some text => (Environment.references text).mapM fun name => return (name, ← IO.getEnv name)
  | none => return []

def now : IO Timestamp := do
  let instant ← Std.Time.Timestamp.now
  return ⟨instant.val.second.val, instant.val.nano.val.toNat⟩

/-- Reads all that an invocation may look at. -/
def surroundings (invocation : Invocation) : IO Surroundings := do
  let files ← invocation.files.mapM fun path => return (path, ← readFile path)
  let settings ← readSettings (invocation.config.bind fun path => (files.lookup path).join)
  let seed ← IO.rand 0 (UInt64.size - 1)
  return {
    file := fun path => (files.lookup path).join
    setting := fun name => (settings.lookup name).join
    identifier := identifier seed
    now := ← now }

def run (words : List String) : IO UInt32 := do
  match parse? words with
  | none =>
    IO.eprint helpText
    return usageCode
  | some .version =>
    IO.print versionText
    return 0
  | some .help =>
    IO.print helpText
    return 0
  | some (.run invocation) =>
    let outcome := invocation.run (← surroundings invocation)
    IO.print outcome.output
    outcome.failure.forM fun reason => IO.eprintln ("Error: " ++ reason)
    return outcome.exitCode

end Workflow.Main

def main (words : List String) : IO UInt32 :=
  Workflow.Main.run words
