/-! Character properties given as closed ranges of code points. -/
namespace Workflow.Text

/-- A property given by ranges holds of the characters that some range covers. -/
def covers (ranges : List (Nat × Nat)) (c : Char) : Bool :=
  ranges.any fun range => range.1 ≤ c.toNat && c.toNat ≤ range.2

end Workflow.Text
