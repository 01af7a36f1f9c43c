import Workflow.Timestamp.Basic

/-! Writing timestamps in universal time. -/
namespace Workflow.Timestamp

/-- The digits of a number, filled up with zeros from the left. -/
def padded (width n : Nat) : String :=
  let digits := Nat.toDigits 10 n
  String.ofList (List.replicate (width - digits.length) '0' ++ digits)

/-- Years of four digits stand as they are, others have a sign. -/
def yearText (year : Int) : String :=
  if 0 ≤ year ∧ year ≤ 9999 then padded 4 year.toNat
  else (if year < 0 then "-" else "+") ++ padded 4 year.natAbs

/-- Three, six or nine digits after a point, the fewest that are exact, or nothing. -/
def fractionText (nanoseconds : Nat) : String :=
  if nanoseconds = 0 then ""
  else if nanoseconds % 1000000 = 0 then "." ++ padded 3 (nanoseconds / 1000000)
  else if nanoseconds % 1000 = 0 then "." ++ padded 6 (nanoseconds / 1000)
  else "." ++ padded 9 nanoseconds

def text (timestamp : Timestamp) : String :=
  let date := CalendarDay.ofDays (timestamp.seconds / 86400)
  let second := (timestamp.seconds % 86400).toNat
  let leap := timestamp.nanoseconds / 1000000000
  yearText date.year ++ "-" ++ padded 2 date.month ++ "-" ++ padded 2 date.day ++ "T" ++
    padded 2 (second / 3600) ++ ":" ++ padded 2 (second / 60 % 60) ++ ":" ++
    padded 2 (second % 60 + leap) ++ fractionText (timestamp.nanoseconds % 1000000000) ++ "Z"

end Workflow.Timestamp
