import Workflow.Number.Binary
import Workflow.Text.Digits

/-!
Decimals read by scaling: as many digits as a word holds are rounded to a double, which is then multiplied
or divided by powers of ten. Each step rounds, so that the result may be a neighbour of the nearest double.
-/
namespace Workflow.Number.Binary

variable {format : Format}

/-- The product, or nothing if it is beyond the largest finite number. -/
def mul? (x y : Binary format) : Option (Binary format) :=
  ofRatio? format (x.negative != y.negative) (format.units x.rank * format.units y.rank)
    (Nat.pow 2 (2 * format.scale))

/-- The quotient, or nothing if it is beyond the largest finite number or the divisor is zero. -/
def div? (x y : Binary format) : Option (Binary format) :=
  if y.isZero then none
  else ofRatio? format (x.negative != y.negative) (format.units x.rank) (format.units y.rank)

/-- The exponent of the greatest power of ten among the doubles. -/
def greatestExponent : Nat := 308

def powerOfTen? (exponent : Nat) : Option Double :=
  ofRatio? .double false (Nat.pow 10 exponent) 1

/-- The double times a power of ten. One division after another makes up for a power that is too great to
be a double. -/
def scale? (x : Double) (exponent : Int) : Option Double :=
  if exponent.natAbs ≤ greatestExponent then
    (powerOfTen? exponent.natAbs).bind fun power => if 0 ≤ exponent then x.mul? power else x.div? power
  else if x.isZero then some x
  else if 0 ≤ exponent then none
  else
    ((powerOfTen? greatestExponent).bind x.div?).bind fun quotient =>
      quotient.scale? (exponent + greatestExponent)
termination_by exponent.natAbs
decreasing_by simp only [greatestExponent] at *; omega

/-- Puts digits behind a number as long as it fits into a word. Gives the number and how many digits are
left over. -/
def appendDigits (value : Nat) : List Char → Nat × Nat
  | [] => (value, 0)
  | digit :: rest =>
    let longer := value * 10 + Text.decimalValue [digit]
    if longer < UInt64.size then appendDigits longer rest else (value, rest.length + 1)

/-- The double for digits before and after a point, times a power of ten. Digits that do not fit are taken
for zeros; those after the point begin anew with what fits. -/
def ofDigits? (negative : Bool) (whole decimals : List Char) (exponent : Int) : Option Double :=
  let (leading, dropped) := appendDigits 0 whole
  let (value, ignored) := appendDigits leading decimals
  (ofRatio? .double negative value 1).bind fun x =>
    x.scale? (exponent + dropped - (decimals.length - ignored : Nat))

end Workflow.Number.Binary
