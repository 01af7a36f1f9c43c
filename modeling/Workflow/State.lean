import Workflow.Json.Printer
import Workflow.Key.Set

/-! Workflow state: a JSON value for each key that is present. -/
namespace Workflow

/-- A snapshot of the state, or a change to it in which null removes a key. -/
abbrev State := KeyMap Json

namespace State

def ofJson? : Json → Option State
  | .object fields => some (KeyMap.ofList fields)
  | _ => none

def toJson (state : State) : Json :=
  .object state.toList

def keys (state : State) : KeySet :=
  KeySet.ofList (KeyMap.keys state)

/-- Writes one value; null removes the key. -/
def write (state : State) (key : String) (value : Json) : State :=
  if value.isNull then state.erase key else state.insert key value

/-- Writes every entry of a change. -/
def merge (state delta : State) : State :=
  delta.toList.foldl (fun state entry => state.write entry.1 entry.2) state

end State

/-- Null, false, zero and everything empty are false, all else is true. -/
def Json.truthy : Json → Bool
  | .null => false
  | .bool value => value
  | .number value => !value.isZero
  | .string text => text ≠ ""
  | .array elements => !elements.isEmpty
  | .object fields => !fields.isEmpty

/-- The text of a value inside of a longer text: a string stands for itself. -/
def Json.display : Json → String
  | .string text => text
  | value => value.compactText

/-- The scopes whose keys live outside of the workflow. -/
def externalScopes : List String :=
  ["app:", "user:"]

/-- A key of the application or of the user is always available. -/
def isExternalKey (key : String) : Bool :=
  externalScopes.any fun scope => scope.toList.isPrefixOf key.toList

end Workflow
