import Workflow.Number.Shortest

/-! Decimal text of binary numbers. -/
namespace Workflow.Number

/-- The positions of the decimal point, counted from before the first digit, at which a number is
written out in full; outside of them it is written with an exponent. -/
structure Positional where
  least : Int
  greatest : Int

/-- Double precision is written out between `0.00001` and sixteen places before the point. -/
def Positional.double : Positional := ⟨-4, 16⟩

/-- Single precision is written out between `0.000001` and thirteen places before the point. -/
def Positional.single : Positional := ⟨-5, 13⟩

def zeros (count : Int) : List Char :=
  List.replicate count.toNat '0'

/-- The text of `0.digits * 10 ^ point`, with at least one digit on each side of the point. -/
def Positional.write (positional : Positional) (digits : List Char) (point : Int) : List Char :=
  if positional.least ≤ point ∧ point ≤ positional.greatest then
    if (digits.length : Int) ≤ point then digits ++ zeros (point - digits.length) ++ ['.', '0']
    else if 0 < point then digits.take point.toNat ++ '.' :: digits.drop point.toNat
    else '0' :: '.' :: zeros (-point) ++ digits
  else
    let significand :=
      match digits with
      | first :: second :: rest => first :: '.' :: second :: rest
      | single => single
    let exponent := point - 1
    significand ++ 'e' :: (if exponent < 0 then '-' else '+') :: Nat.toDigits 10 exponent.natAbs

def dropTrailingZeros (digits : List Char) : List Char :=
  (digits.reverse.dropWhile (· = '0')).reverse

def Binary.text {format : Format} (positional : Positional) (x : Binary format) : List Char :=
  let sign := if x.negative then ['-'] else []
  if x.rank = 0 then sign ++ ['0', '.', '0']
  else
    let decimal := shortest format x.rank
    let digits := Nat.toDigits 10 decimal.digits
    sign ++ positional.write (dropTrailingZeros digits) (digits.length + decimal.exponent)

/-- The decimal digits of an integer, with a sign in front of a negative one. -/
def integerText (n : Int) : List Char :=
  if n < 0 then '-' :: Nat.toDigits 10 n.natAbs else Nat.toDigits 10 n.natAbs

end Workflow.Number
