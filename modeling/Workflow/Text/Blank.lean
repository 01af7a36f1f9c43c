/-! White space in the sense of Unicode, and trimming. -/
namespace Workflow.Text

/-- The characters with property White_Space. -/
def isBlank (c : Char) : Bool :=
  ('\t' ≤ c && c ≤ '\r') || c == ' ' || c == '\x85' || c == '\xa0' || c == '\u1680' ||
  ('\u2000' ≤ c && c ≤ '\u200a') || c == '\u2028' || c == '\u2029' || c == '\u202f' ||
  c == '\u205f' || c == '\u3000'

def trimStart (text : List Char) : List Char :=
  text.dropWhile isBlank

/-- The text without the white space at its two ends. -/
def trim (text : List Char) : List Char :=
  (trimStart (trimStart text).reverse).reverse

end Workflow.Text
