import Workflow.State

/-! Conditions on the workflow state. -/
namespace Workflow

inductive Predicate where
  /-- The key holds a true value. -/
  | truthy (key : String)
  /-- The key is present, be it with null. -/
  | present (key : String)
  | equals (key : String) (value : Json)
  /-- The key holds a string that contains the needle. -/
  | contains (key needle : String)
  | not (inner : Predicate)
  | all (of : List Predicate)
  | any (of : List Predicate)
deriving Inhabited

namespace Predicate

/-- Whether one list of characters stands somewhere inside another. -/
def occursIn (needle text : List Char) : Bool :=
  needle.isPrefixOf text ||
    match text with
    | [] => false
    | _ :: rest => occursIn needle rest

mutual

/-- A condition on a key that is absent does not hold. -/
def evaluate (state : State) : Predicate → Bool
  | .truthy key => (state.get? key).any Json.truthy
  | .present key => state.contains key
  | .equals key value => (state.get? key).any (· == value)
  | .contains key needle =>
    ((state.get? key).bind Json.string?).any fun text => occursIn needle.toList text.toList
  | .not inner => !inner.evaluate state
  | .all of => evaluateAll state of
  | .any of => evaluateAny state of

def evaluateAll (state : State) : List Predicate → Bool
  | [] => true
  | first :: rest => first.evaluate state && evaluateAll state rest

def evaluateAny (state : State) : List Predicate → Bool
  | [] => false
  | first :: rest => first.evaluate state || evaluateAny state rest

end

mutual

/-- Every key that the predicate looks at. -/
def keys : Predicate → KeySet
  | .truthy key => .singleton key
  | .present key => .singleton key
  | .equals key _ => .singleton key
  | .contains key _ => .singleton key
  | .not inner => inner.keys
  | .all of => keysOfList of
  | .any of => keysOfList of

def keysOfList : List Predicate → KeySet
  | [] => ∅
  | first :: rest => first.keys ∪ keysOfList rest

end

mutual

def equal : Predicate → Predicate → Bool
  | .truthy k, .truthy l => k == l
  | .present k, .present l => k == l
  | .equals k v, .equals l w => k == l && v == w
  | .contains k n, .contains l m => k == l && n == m
  | .not p, .not q => p.equal q
  | .all ps, .all qs => equalLists ps qs
  | .any ps, .any qs => equalLists ps qs
  | _, _ => false

def equalLists : List Predicate → List Predicate → Bool
  | [], [] => true
  | p :: ps, q :: qs => p.equal q && equalLists ps qs
  | _, _ => false

end

instance : BEq Predicate := ⟨equal⟩

end Predicate

end Workflow
