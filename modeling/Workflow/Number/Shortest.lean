import Workflow.Number.Binary

/-! The shortest decimal that reads back as a given binary number. -/
namespace Workflow.Number

/-- The number `digits * 10 ^ exponent`. -/
structure Decimal where
  digits : Nat
  exponent : Int
deriving DecidableEq, Repr

/-- The decimal as a quotient of natural numbers. -/
def Decimal.ratio (decimal : Decimal) : Nat × Nat :=
  if 0 ≤ decimal.exponent then (decimal.digits * Nat.pow 10 decimal.exponent.toNat, 1)
  else (decimal.digits, Nat.pow 10 (-decimal.exponent).toNat)

/-- A decimal reads back as a rank if that is the rank next to it. -/
def Decimal.readsAs (format : Format) (rank : Nat) (decimal : Decimal) : Bool :=
  format.rankOf decimal.ratio.1 decimal.ratio.2 == rank

def digitCount (n : Nat) : Nat :=
  (Nat.toDigits 10 n).length

/-- The least `p` with `numerator / denominator < 10 ^ p`, for a positive quotient. -/
def magnitude (numerator denominator : Nat) : Int :=
  if denominator ≤ numerator then digitCount (numerator / denominator)
  else 1 - (digitCount ((denominator - 1) / numerator) : Int)

/-- Of the two multiples of `10 ^ exponent` around `numerator / denominator`, those that read back as
`rank`; if both do, the nearer one, and of two equally near the even one. -/
def nearestOnGrid (format : Format) (rank numerator denominator : Nat) (exponent : Int) :
    Option Decimal :=
  let above := if 0 ≤ exponent then numerator else numerator * Nat.pow 10 (-exponent).toNat
  let below := if 0 ≤ exponent then denominator * Nat.pow 10 exponent.toNat else denominator
  let lower : Decimal := ⟨above / below, exponent⟩
  let upper : Decimal := ⟨above / below + 1, exponent⟩
  let nearer := if divideRounding above below = above / below then lower else upper
  match lower.readsAs format rank, upper.readsAs format rank with
  | true, true => some nearer
  | true, false => some lower
  | false, true => some upper
  | false, false => none

/-- The decimal with the fewest digits that reads back as `rank`. A format has so few digits that one
of the grids always holds it; the exact value, which reads back as well, stands behind them. -/
def shortest (format : Format) (rank : Nat) : Decimal :=
  let numerator := format.units rank
  let denominator := Nat.pow 2 format.scale
  let point := magnitude numerator denominator
  let found := (List.range 17).findSome? fun count =>
    nearestOnGrid format rank numerator denominator (point - (count + 1 : Nat))
  found.getD ⟨numerator * Nat.pow 5 format.scale, -(format.scale : Int)⟩

end Workflow.Number
