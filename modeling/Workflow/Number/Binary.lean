/-! Finite binary floating-point numbers of any width, and correct rounding to them. -/
namespace Workflow.Number

/-- A binary interchange format. Its positive values are the multiples of two to the minus `scale`
with at most `fraction + 1` significant bits, of which the first `limit` are finite. -/
structure Format where
  fraction : Nat
  scale : Nat
  limit : Nat
deriving DecidableEq, Repr

/-- Double precision: 52 stored bits and 2047 finite binades. -/
def Format.double : Format := ⟨52, 1074, 2047 * Nat.pow 2 52⟩

/-- Single precision: 23 stored bits and 255 finite binades. -/
def Format.single : Format := ⟨23, 149, 255 * Nat.pow 2 23⟩

/-- The quotient rounded to the nearest integer, a half to the even one. -/
def divideRounding (numerator denominator : Nat) : Nat :=
  let quotient := numerator / denominator
  let remainder := numerator % denominator
  if 2 * remainder < denominator then quotient
  else if denominator < 2 * remainder then quotient + 1
  else quotient + quotient % 2

/-- The magnitudes of a format are numbered in ascending order from zero. A rank splits into the
number of the binade and the significand, whose leading bit counts into the number of the binade. -/
def Format.significand (format : Format) (rank : Nat) : Nat :=
  if rank < Nat.pow 2 (format.fraction + 1) then rank
  else Nat.pow 2 format.fraction + rank % Nat.pow 2 format.fraction

/-- The exponent of two that belongs to `Format.significand`, counted from minus `scale`. -/
def Format.exponent (format : Format) (rank : Nat) : Nat :=
  if rank < Nat.pow 2 (format.fraction + 1) then 0 else rank / Nat.pow 2 format.fraction - 1

/-- The value of a rank, as a multiple of two to the minus `scale`. -/
def Format.units (format : Format) (rank : Nat) : Nat :=
  format.significand rank * Nat.pow 2 (format.exponent rank)

/-- The rank next to `numerator / denominator`. A significand that rounds up to the next power of two
carries into the number of the binade, which is its right rank there. -/
def Format.rankOf (format : Format) (numerator denominator : Nat) : Nat :=
  let scaled := numerator * Nat.pow 2 format.scale
  let exponent := (scaled / denominator).log2 - format.fraction
  exponent * Nat.pow 2 format.fraction + divideRounding scaled (denominator * Nat.pow 2 exponent)

/-- A finite number of the format. -/
structure Binary (format : Format) where
  negative : Bool
  rank : Nat
  rank_lt : rank < format.limit
deriving DecidableEq

namespace Binary

variable {format : Format}

def isZero (x : Binary format) : Bool :=
  x.rank == 0

/-- Equality of values: the two zeros are one. -/
def sameValue (x y : Binary format) : Bool :=
  x.rank == y.rank && (x.negative == y.negative || x.rank == 0)

/-- The nearest number to plus or minus `numerator / denominator`, or nothing if that is beyond the
largest finite one. -/
def ofRatio? (format : Format) (negative : Bool) (numerator denominator : Nat) :
    Option (Binary format) :=
  let rank := format.rankOf numerator denominator
  if h : rank < format.limit then some ⟨negative, rank, h⟩ else none

/-- The nearest number to `digits * 10 ^ exponent`. Exponents that leave every range are settled by
the count of digits, without writing the power out. -/
def ofDecimal? (format : Format) (negative : Bool) (digits : Nat) (exponent : Int) :
    Option (Binary format) :=
  let magnitude := exponent + (Nat.toDigits 10 digits).length
  if digits = 0 ∨ magnitude < -(format.scale : Int) then ofRatio? format negative 0 1
  else if (format.scale : Int) < magnitude then none
  else if 0 ≤ exponent then ofRatio? format negative (digits * Nat.pow 10 exponent.toNat) 1
  else ofRatio? format negative digits (Nat.pow 10 (-exponent).toNat)

/-- The nearest number of another format. -/
def convert? (target : Format) (x : Binary format) : Option (Binary target) :=
  ofRatio? target x.negative (format.units x.rank) (Nat.pow 2 format.scale)

end Binary

abbrev Double := Binary .double

theorem divideRounding_self_mul (n d : Nat) (h : 0 < d) : divideRounding (n * d) d = n := by
  simp [divideRounding, Nat.mul_div_cancel n h, h]

end Workflow.Number
