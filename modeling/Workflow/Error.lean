/-! What can go wrong, by cause, and the wording of each. -/
namespace Workflow

inductive Error where
  | missingOutputKey (node : String)
  | duplicateName (parent name : String)
  | emptyComposite (kind : String)
  | invalidBound (node : String) (bound : UInt32)
  | notStructural (reason : String)
  | invalidPredicate (expression : String)
  | contractViolation (count : Nat) (first : String)
  | unimplemented (backend operation : String)
  | backend (reason : String)
  | config (reason : String)
deriving DecidableEq, Repr

def Error.message : Error → String
  | .missingOutputKey node =>
    node ++ ": routing on a mapping requires a declared output key (call .outputs(key) first)"
  | .duplicateName parent name =>
    "duplicate sibling name '" ++ name ++ "' inside '" ++ parent ++ "'"
  | .emptyComposite kind => kind ++ " requires at least one child"
  | .invalidBound node bound =>
    node ++ ": iteration bound must be at least 1 (got " ++ bound.toNat.repr ++ ")"
  | .notStructural reason => "not a structural schema: " ++ reason
  | .invalidPredicate expression => "invalid predicate expression: " ++ expression
  | .contractViolation count first =>
    "contract check failed with " ++ count.repr ++ " error(s); first: " ++ first
  | .unimplemented runtime operation =>
    "backend '" ++ runtime ++ "' cannot " ++ operation ++ ": requires a live runtime"
  | .backend reason => "backend error: " ++ reason
  | .config reason => "Config error: " ++ reason

end Workflow
