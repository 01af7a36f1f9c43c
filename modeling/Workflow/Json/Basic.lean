import Workflow.Key.Map
import Workflow.Number.Binary

/-! JSON values. -/
namespace Workflow

/-- A number is an integer or a binary fraction. Reading text gives integers and doubles; singles
belong to fields of single precision that are about to be written as text. -/
inductive Number where
  | integer (value : Int)
  | double (value : Number.Binary .double)
  | single (value : Number.Binary .single)
deriving DecidableEq

namespace Number

/-- Numbers are equal if they are of one kind and have one value. -/
def equal : Number → Number → Bool
  | .integer m, .integer n => m == n
  | .double x, .double y => x.sameValue y
  | .single x, .single y => x.sameValue y
  | _, _ => false

instance : BEq Number := ⟨equal⟩

def isZero : Number → Bool
  | .integer n => n == 0
  | .double x => x.isZero
  | .single x => x.isZero

end Number

/-- The fields of an object are in ascending order of their names, without repeats, wherever the value
comes from text. A document that is about to be written has them in the order of its definition. -/
inductive Json where
  | null
  | bool (value : Bool)
  | number (value : Number)
  | string (value : String)
  | array (elements : List Json)
  | object (fields : List (String × Json))
deriving Inhabited

namespace Json

mutual

def equal : Json → Json → Bool
  | .null, .null => true
  | .bool a, .bool b => a == b
  | .number m, .number n => m == n
  | .string s, .string t => s == t
  | .array xs, .array ys => equalElements xs ys
  | .object fs, .object gs => equalFields fs gs
  | _, _ => false

def equalElements : List Json → List Json → Bool
  | [], [] => true
  | x :: xs, y :: ys => x.equal y && equalElements xs ys
  | _, _ => false

def equalFields : List (String × Json) → List (String × Json) → Bool
  | [], [] => true
  | (k, x) :: xs, (l, y) :: ys => k == l && x.equal y && equalFields xs ys
  | _, _ => false

end

instance : BEq Json := ⟨equal⟩

def isNull : Json → Bool
  | .null => true
  | _ => false

def string? : Json → Option String
  | .string s => some s
  | _ => none

def bool? : Json → Option Bool
  | .bool b => some b
  | _ => none

def array? : Json → Option (List Json)
  | .array elements => some elements
  | _ => none

def object? : Json → Option (List (String × Json))
  | .object fields => some fields
  | _ => none

def integer? : Json → Option Int
  | .number (.integer n) => some n
  | _ => none

def field? (json : Json) (name : String) : Option Json :=
  json.object?.bind fun fields => fields.lookup name

def ofNat (n : Nat) : Json :=
  .number (.integer n)

/-- An object with its fields in ascending order; of several with one name the last is kept. -/
def ofFields (fields : List (String × Json)) : Json :=
  .object (KeyMap.ofList fields).toList

def ofStrings (texts : List String) : Json :=
  .array (texts.map .string)

end Json

end Workflow
