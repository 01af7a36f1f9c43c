import Workflow.Json.Record

/-! Findings about the steps of a workflow. -/
namespace Workflow

inductive DiagnosticLevel where
  | info
  | warning
  | error
deriving DecidableEq, Repr

namespace DiagnosticLevel

def rank : DiagnosticLevel → Nat
  | .info => 0
  | .warning => 1
  | .error => 2

instance : LE DiagnosticLevel := ⟨fun a b => a.rank ≤ b.rank⟩

instance (a b : DiagnosticLevel) : Decidable (a ≤ b) :=
  inferInstanceAs (Decidable (a.rank ≤ b.rank))

def name : DiagnosticLevel → String
  | .info => "info"
  | .warning => "warning"
  | .error => "error"

def ofName? (name : String) : Option DiagnosticLevel :=
  [info, warning, error].find? fun level => level.name == name

end DiagnosticLevel

structure Diagnostic where
  level : DiagnosticLevel
  node : String
  message : String
deriving DecidableEq, Repr

namespace Diagnostic

def isError (diagnostic : Diagnostic) : Bool :=
  diagnostic.level == .error

def display (diagnostic : Diagnostic) : String :=
  diagnostic.level.name ++ " [" ++ diagnostic.node ++ "]: " ++ diagnostic.message

def toJson (diagnostic : Diagnostic) : Json :=
  .object [("level", .string diagnostic.level.name), ("node", .string diagnostic.node),
    ("message", .string diagnostic.message)]

def ofJson? (context : Json.Context) (json : Json) : Option Diagnostic := do
  let fields ← json.layer.record? context ["level", "node", "message"]
  return {
    level := ← Json.required fields "level" fun value =>
      (value.plainName? context).bind DiagnosticLevel.ofName?
    node := ← Json.required fields "node" Json.string?
    message := ← Json.required fields "message" Json.string? }

/-- The findings of a level or above it. -/
def atLeast (level : DiagnosticLevel) (diagnostics : List Diagnostic) : List Diagnostic :=
  diagnostics.filter fun diagnostic => level ≤ diagnostic.level

def errors (diagnostics : List Diagnostic) : List Diagnostic :=
  atLeast .error diagnostics

def hasErrors (diagnostics : List Diagnostic) : Bool :=
  diagnostics.any isError

end Diagnostic

end Workflow
