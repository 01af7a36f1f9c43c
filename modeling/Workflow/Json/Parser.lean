import Workflow.Json.Token

/-! Reading JSON text. -/
namespace Workflow.Json

/-- An array or object that is still open: what it holds so far, in reverse. -/
inductive Frame where
  | array (done : List Json)
  | object (done : List (String × Json)) (name : String)

/-- What may come next, and the open frames around it from the inside out. -/
inductive Expectation where
  | anyValue (frames : List Frame)
  | firstElement (frames : List Frame)
  | afterElement (done : List Json) (frames : List Frame)
  | firstName (frames : List Frame)
  | nextName (done : List (String × Json)) (frames : List Frame)
  | afterName (done : List (String × Json)) (name : String) (frames : List Frame)
  | afterField (done : List (String × Json)) (frames : List Frame)
  | finished (value : Json)

/-- Arrays and objects nest at most this deep. -/
def maxDepth : Nat := 127

namespace Expectation

/-- A complete value goes into the innermost open frame. -/
def complete (value : Json) : List Frame → Expectation
  | [] => .finished value
  | .array done :: frames => .afterElement (value :: done) frames
  | .object done name :: frames => .afterField ((name, value) :: done) frames

/-- Reads the first word of a value. -/
def startValue (frames : List Frame) : Json.Token → Option Expectation
  | .openArray => if frames.length < maxDepth then some (.firstElement frames) else none
  | .openObject => if frames.length < maxDepth then some (.firstName frames) else none
  | .string text => some (complete (.string text) frames)
  | .literal value => some (complete value frames)
  | _ => none

def step : Expectation → Json.Token → Option Expectation
  | .anyValue frames, token => startValue frames token
  | .firstElement frames, .closeArray => some (complete (.array []) frames)
  | .firstElement frames, token => startValue (.array [] :: frames) token
  | .afterElement done frames, .comma => some (.anyValue (.array done :: frames))
  | .afterElement done frames, .closeArray => some (complete (.array done.reverse) frames)
  | .firstName frames, .closeObject => some (complete (.object []) frames)
  | .firstName frames, .string text => some (.afterName [] text frames)
  | .nextName done frames, .string text => some (.afterName done text frames)
  | .afterName done name frames, .colon => some (.anyValue (.object done name :: frames))
  | .afterField done frames, .comma => some (.nextName done frames)
  | .afterField done frames, .closeObject => some (complete (ofFields done.reverse) frames)
  | _, _ => none

end Expectation

def ofTokens? (tokens : List Token) : Option Json := do
  match ← tokens.foldlM Expectation.step (.anyValue []) with
  | .finished value => some value
  | _ => none

def parse? (text : List Char) : Option Json :=
  (Token.ofText? text).bind ofTokens?

end Workflow.Json
