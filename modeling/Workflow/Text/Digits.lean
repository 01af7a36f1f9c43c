/-! Digits and the numbers that they stand for. -/
namespace Workflow.Text

/-- The value of a hexadecimal digit in either case. -/
def hexDigit? (c : Char) : Option Nat :=
  if '0' ≤ c ∧ c ≤ '9' then some (c.toNat - '0'.toNat)
  else if 'a' ≤ c ∧ c ≤ 'f' then some (c.toNat - 'a'.toNat + 10)
  else if 'A' ≤ c ∧ c ≤ 'F' then some (c.toNat - 'A'.toNat + 10)
  else none

/-- The number that digits of some base name, the first of them the highest. -/
def positionalValue (base : Nat) (digits : List Nat) : Nat :=
  digits.foldl (fun value digit => value * base + digit) 0

/-- The number that decimal digits name. -/
def decimalValue (digits : List Char) : Nat :=
  positionalValue 10 (digits.map fun c => c.toNat - '0'.toNat)

end Workflow.Text
