import Workflow.Error
import Workflow.Text.Blank
import Workflow.Visibility

/-! How a workflow is to be executed. -/
namespace Workflow

/-- What findings of the contract check do. -/
inductive ContractMode where
  /-- They are logged. -/
  | advisory
  /-- An error stops compilation. -/
  | strict
  /-- There is no check. -/
  | unchecked
deriving DecidableEq, Repr

namespace ContractMode

def name : ContractMode → String
  | .advisory => "advisory"
  | .strict => "strict"
  | .unchecked => "unchecked"

def ofName? (name : String) : Option ContractMode :=
  [advisory, strict, unchecked].find? fun mode => mode.name == name

end ContractMode

/-- When failed calls are made again. -/
structure Retry where
  maxRetries : UInt32
  initialBackoffMs : UInt64
  maxBackoffMs : UInt64
deriving DecidableEq

def Retry.default : Retry := ⟨3, 1000, 30000⟩

/-- One layer around the runtime. -/
inductive Middleware where
  | retry (settings : Retry)
  | logging (level : String)
  /-- Stops an invocation that has spent so many tokens. -/
  | tokenBudget (maxTokens : UInt64)
deriving DecidableEq

/-- When the history of a conversation is shortened. -/
structure Compaction where
  /-- The number of invocations from one time to the next. -/
  interval : UInt32
  /-- The number of invocations that are kept. -/
  overlap : UInt32
  sizeThreshold : Option UInt64
  tokenThreshold : Option UInt64
deriving DecidableEq

def Compaction.default : Compaction := ⟨10, 2, none, none⟩

structure Config where
  appName : String
  /-- The layers from the outside in. -/
  middleware : List Middleware
  resumable : Bool
  compaction : Option Compaction
  contractMode : ContractMode
  visibility : VisibilityPolicy
deriving DecidableEq

namespace Config

def named (appName : String) : Config :=
  ⟨appName, [], false, none, .advisory, .filtered⟩

def default : Config := named "trellis"

/-- The new layer is the innermost one. -/
def addMiddleware (config : Config) (middleware : Middleware) : Config :=
  { config with middleware := config.middleware ++ [middleware] }

/-- A compaction takes place, and forgets something. -/
def checkCompaction (compaction : Compaction) : Except Error Unit :=
  if compaction.interval = 0 then .error (.config "compaction.interval must be at least 1")
  else if compaction.interval ≤ compaction.overlap then
    .error (.config ("compaction.overlap (" ++ compaction.overlap.toNat.repr ++
      ") must be smaller than interval (" ++ compaction.interval.toNat.repr ++ ")"))
  else .ok ()

def checkMiddleware : Middleware → Except Error Unit
  | .retry settings =>
    if settings.maxBackoffMs < settings.initialBackoffMs then
      .error (.config "retry.initial_backoff_ms exceeds max_backoff_ms")
    else .ok ()
  | _ => .ok ()

/-- Refuses what no runtime could do. -/
def validate (config : Config) : Except Error Unit := do
  if Text.trim config.appName.toList = [] then throw (.config "app_name must not be empty")
  config.compaction.forM checkCompaction
  config.middleware.forM checkMiddleware

end Config

end Workflow
