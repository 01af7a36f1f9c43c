import Workflow.Number.Binary

/-! Numbers of single precision with the two infinities. -/
namespace Workflow.Number

inductive Single where
  | finite (value : Binary .single)
  | infinite (negative : Bool)
deriving DecidableEq

namespace Single

/-- What rounds beyond the largest finite number becomes infinite. -/
def ofRatio (negative : Bool) (numerator denominator : Nat) : Single :=
  match Binary.ofRatio? .single negative numerator denominator with
  | some value => .finite value
  | none => .infinite negative

def ofDouble (x : Double) : Single :=
  ofRatio x.negative (Format.double.units x.rank) (Nat.pow 2 Format.double.scale)

/-- Every finite number of single precision is one of double precision. -/
def toDouble? : Single → Option Double
  | .finite value => value.convert? .double
  | .infinite _ => none

def sameValue : Single → Single → Bool
  | .finite x, .finite y => x.sameValue y
  | .infinite x, .infinite y => x == y
  | _, _ => false

end Single

end Workflow.Number
