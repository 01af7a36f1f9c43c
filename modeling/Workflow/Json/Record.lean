import Workflow.Json.Layer
import Workflow.Number.Single

/-! Records, alternatives and plain fields as JSON values. -/
namespace Workflow.Json

/-- Where a document stands decides which written forms of its alternatives are accepted. -/
inductive Context where
  /-- A document of its own. -/
  | outer
  /-- A part of a document that was chosen by its tag. -/
  | inner
  /-- A document in a settings file. -/
  | settings
deriving DecidableEq

namespace Layer

variable {α : Type}

/-- The fields of a record. Instead of an object it may be an array of its fields in the order of their
definition, of which the last may be left away. -/
def record? (context : Context) (names : List String) : Layer α → Option (List (String × α))
  | .object fields => some fields
  | .array elements =>
    if elements.length ≤ names.length ∨ context = .settings then some (names.zip elements) else none
  | .scalar _ => none

/-- The alternative that a tag names, and the value without the tag. The tag is a field of an object or
the first element of an array. Inside of another tagged value it may be the position of the alternative
among all of them. -/
def tagged? (raw : α → Json) (context : Context) (tag : String) (names : List String) :
    Layer α → Option (String × Layer α)
  | .object fields => do return (← name? (raw (← fields.lookup tag)), .object fields)
  | .array (first :: rest) => do return (← name? (raw first), .array rest)
  | _ => none
where
  name? : Json → Option String
    | .string name => if name ∈ names then some name else none
    | .number (.integer n) =>
      if context = .inner ∧ 0 ≤ n then names[n.toNat]? else none
    | _ => none

end Layer

section fields

variable {α β : Type}

def required (fields : List (String × α)) (name : String) (read : α → Option β) : Option β :=
  (fields.lookup name).bind read

/-- A field that may be left away. -/
def withDefault (fields : List (String × α)) (name : String) (value : β) (read : α → Option β) :
    Option β :=
  match fields.lookup name with
  | none => some value
  | some found => read found

end fields

/-- Null stands for nothing. -/
def nullable {β : Type} (read : Json → Option β) : Json → Option (Option β)
  | .null => some none
  | value => (read value).map some

/-- A field that may be left away or be null. -/
def optional {β : Type} (fields : List (String × Json)) (name : String) (read : Json → Option β) :
    Option (Option β) :=
  withDefault fields name none (nullable read)

/-- A field that is written only if there is something to write. -/
def present {α : Type} (name : String) (write : α → Json) (value : Option α) :
    List (String × Json) :=
  match value with
  | some value => [(name, write value)]
  | none => []

/-- A list of keys that is written only if it is not empty. -/
def presentKeys (name : String) (keys : List String) : List (String × Json) :=
  if keys.isEmpty then [] else [(name, .ofStrings keys)]

/-- An alternative without fields is written as its name, or as an object whose one field has that name
and holds nothing. -/
def plainName? (context : Context) : Json → Option String
  | .string name => some name
  | .object [(name, value)] => if holdsNothing value then some name else none
  | _ => none
where
  holdsNothing : Json → Bool
    | .null => context ≠ .settings
    | .object [] => context ≠ .outer
    | .array [] => context = .settings
    | _ => false

def strings? (value : Json) : Option (List String) :=
  value.array?.bind fun elements => elements.mapM string?

def natural? (value : Json) : Option Nat :=
  value.integer?.bind fun n => if 0 ≤ n then some n.toNat else none

def uint32? (value : Json) : Option UInt32 :=
  value.natural?.bind fun n => if n < UInt32.size then some (UInt32.ofNat n) else none

def uint64? (value : Json) : Option UInt64 :=
  value.natural?.bind fun n => if n < UInt64.size then some (UInt64.ofNat n) else none

/-- Any number, rounded to single precision. -/
def single? : Json → Option Number.Single
  | .number (.integer n) => some (Number.Single.ofRatio (n < 0) n.natAbs 1)
  | .number (.double x) => some (Number.Single.ofDouble x)
  | .number (.single x) => some (.finite x)
  | _ => none

end Workflow.Json
