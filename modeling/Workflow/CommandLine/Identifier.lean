/-! Identifiers of events and invocations, made from random words. -/
namespace Workflow.CommandLine

/-- The sixteen hexadecimal digits of a word. -/
def wordDigits (word : UInt64) : List Char :=
  let digits := Nat.toDigits 16 word.toNat
  List.replicate (16 - digits.length) '0' ++ digits

/-- The digits of two words in five groups, with a mark in front of the third and of the fourth. -/
def groupedDigits (high low : UInt64) : String :=
  let first := wordDigits high
  let second := wordDigits low
  let group (digits : List Char) (start length : Nat) : List Char := (digits.drop start).take length
  String.ofList (group first 0 8 ++ '-' :: group first 8 4 ++ '-' :: '4' :: group first 13 3 ++
    '-' :: '8' :: group second 1 3 ++ '-' :: group second 4 12)

/-- The identifier with a given number among those that grow from one seed. -/
def identifier (seed number : Nat) : String :=
  groupedDigits (hash (seed, number, 0)) (hash (seed, number, 1))

end Workflow.CommandLine
