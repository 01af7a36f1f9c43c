/-! References to state keys inside of instructions. -/
namespace Workflow

/-- A reference `{key}`, or `{key?}` if the key may be missing. -/
structure Placeholder where
  key : String
  optional : Bool
deriving DecidableEq, Repr

namespace Template

def isNameStart (c : Char) : Bool :=
  c.isAlpha || c == '_'

def isNameChar (c : Char) : Bool :=
  c.isAlphanum || c == '_'

/-- The longest name at the beginning of a text, and what follows it. -/
def name? : List Char → Option (List Char × List Char)
  | c :: rest => if isNameStart c then some ((c :: rest).span isNameChar) else none
  | [] => none

/-- The longest key at the beginning of a text, and what follows it: a name, or two with a colon between
them. -/
def key? (text : List Char) : Option (List Char × List Char) :=
  (name? text).map fun (first, rest) =>
    match rest with
    | ':' :: more =>
      match name? more with
      | some (second, rest) => (first ++ ':' :: second, rest)
      | none => (first, rest)
    | _ => (first, rest)

/-- The placeholder whose opening brace stands in front of the text, and how many characters of the text
belong to it. -/
def placeholder? (text : List Char) : Option (Placeholder × Nat) :=
  (key? text).bind fun (key, rest) =>
    match rest with
    | '}' :: _ => some (⟨String.ofList key, false⟩, key.length + 1)
    | '?' :: '}' :: _ => some (⟨String.ofList key, true⟩, key.length + 2)
    | _ => none

/-- The placeholders of a text after its first `skip` characters. A doubled brace is a literal brace, and
a brace that belongs to no placeholder stands for itself. -/
def scan : Nat → List Char → List Placeholder
  | _, [] => []
  | skip + 1, _ :: rest => scan skip rest
  | 0, c :: rest =>
    if (c = '{' ∨ c = '}') ∧ rest.head? = some c then scan 1 rest
    else if c = '{' then
      match placeholder? rest with
      | some (placeholder, length) => placeholder :: scan length rest
      | none => scan 0 rest
    else scan 0 rest

end Template

/-- The placeholders of an instruction in order. -/
def placeholders (text : String) : List Placeholder :=
  Template.scan 0 text.toList

/-- The keys without which an instruction cannot be completed, in order and with repeats. -/
def requiredKeys (text : String) : List String :=
  ((placeholders text).filter (!·.optional)).map (·.key)

end Workflow
