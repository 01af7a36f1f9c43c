/-! Records that an operation leaves for its reader besides its result. -/
namespace Workflow

inductive LogLevel where
  | info
  | warn
deriving DecidableEq, Repr

def LogLevel.name : LogLevel → String
  | .info => "INFO"
  | .warn => "WARN"

structure LogRecord where
  level : LogLevel
  message : String
  fields : List (String × String)
deriving DecidableEq, Repr

abbrev Log := List LogRecord

end Workflow
