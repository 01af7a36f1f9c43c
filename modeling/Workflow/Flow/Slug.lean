/-! Short names made from arbitrary text. -/
namespace Workflow

namespace Slug

def maxLength : Nat := 40

/-- Letters and digits in lower case, and one underscore for each run of anything else. -/
def squash (afterUnderscore : Bool) : List Char → List Char
  | [] => []
  | c :: rest =>
    if c.isAlphanum then c.toLower :: squash false rest
    else if afterUnderscore then squash true rest
    else '_' :: squash true rest

def dropUnderscores (text : List Char) : List Char :=
  text.dropWhile (· = '_')

def dropFinalUnderscores (text : List Char) : List Char :=
  (dropUnderscores text.reverse).reverse

def ofText (text : List Char) : List Char :=
  let squashed := dropFinalUnderscores (dropUnderscores (squash false text))
  dropFinalUnderscores (squashed.take maxLength)

end Slug

/-- The words of a text, joined by underscores and cut to the greatest length. -/
def slug (text : String) : String :=
  String.ofList (Slug.ofText text.toList)

end Workflow
