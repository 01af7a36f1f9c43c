import Workflow.Config.Document
import Workflow.Config.Environment
import Workflow.Toml.Parser

/-! Configurations from settings files. -/
namespace Workflow

/-- Why a settings file gives no configuration. -/
inductive LoadError where
  /-- There is no such file, or it is no text. -/
  | notFound
  /-- It is no TOML text, or does not have the form of a configuration. -/
  | malformed
  | refused (error : Error)

def LoadError.message (path : String) : LoadError → String
  | .notFound => "Config file not found: " ++ path
  | .malformed => (Error.config "TOML parse error").message
  | .refused error => error.message

namespace Config

/-- The configuration that a settings file stands for, after its references to variables are expanded. -/
def ofToml (setting : String → Option String) (text : String) : Except LoadError Config := do
  let expanded := Environment.expand setting text
  let some config := (Toml.parse? expanded.toList).bind (ofJson? .settings)
    | throw .malformed
  match config.validate with
  | .ok () => return config
  | .error error => throw (.refused error)

/-- Loads the bytes of a file, if there is one, and tells what was noticed on the way. -/
def load (setting : String → Option String) (file : Option ByteArray) :
    Log × Except LoadError Config :=
  match file.bind String.fromUTF8? with
  | some text => (Environment.warnings setting text, ofToml setting text)
  | none => ([], .error .notFound)

end Config

end Workflow
