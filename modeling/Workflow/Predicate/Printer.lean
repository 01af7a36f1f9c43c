import Workflow.Predicate.Basic
import Workflow.Text.Quoted

/-! The text in which a predicate is shown. -/
namespace Workflow.Predicate

mutual

/-- A negated comparison is shown with its own operator. -/
def display : Predicate → String
  | .truthy key => key
  | .present key => "exists(" ++ key ++ ")"
  | .equals key value => key ++ " == " ++ value.compactText
  | .contains key needle => key ++ " contains " ++ Text.quoted needle
  | .not (.equals key value) => key ++ " != " ++ value.compactText
  | .not (.truthy key) => "!" ++ key
  | .not inner => "not(" ++ inner.display ++ ")"
  | .all [] => "()"
  | .all (first :: rest) => "(" ++ first.display ++ displayRest " && " rest
  | .any [] => "()"
  | .any (first :: rest) => "(" ++ first.display ++ displayRest " || " rest

def displayRest (separator : String) : List Predicate → String
  | [] => ")"
  | first :: rest => separator ++ first.display ++ displayRest separator rest

end

end Workflow.Predicate
