/-!
# Calendar

Dates of the Gregorian calendar and the number of days since the start of 1970. Years are counted
from March, so that the day that leap years add is the last one. `Date.toDays` and `Date.ofDays`
undo each other on the dates that exist.
-/

namespace TeamRoster

/-- A date of the Gregorian calendar, extended to all years. -/
structure Date where
  year : Int
  month : Nat
  day : Nat
deriving DecidableEq, Repr

namespace Date

/-- Whether a year has a 29th of February. -/
def isLeapYear (y : Int) : Bool :=
  y % 4 == 0 && (y % 100 != 0 || y % 400 == 0)

/-- The number of days of a month, counted from 1. -/
def daysInMonth (y : Int) (m : Nat) : Nat :=
  if m = 2 then (if isLeapYear y then 29 else 28)
  else if m = 4 ∨ m = 6 ∨ m = 9 ∨ m = 11 then 30
  else 31

/-- Whether the month and the day exist. -/
def isValid (d : Date) : Bool :=
  decide (1 ≤ d.month ∧ d.month ≤ 12 ∧ 1 ≤ d.day ∧ d.day ≤ daysInMonth d.year d.month)

/-- Days from the start of 1970 to this date. -/
def toDays (d : Date) : Int :=
  let y := if d.month ≤ 2 then d.year - 1 else d.year
  let m := (d.month + 9) % 12
  365 * y + y / 4 - y / 100 + y / 400 + ((153 * m + 2) / 5 : Nat) + d.day - 719469

/-- The date that many days after the start of 1970. Four hundred years have 146097 days. -/
def ofDays (n : Int) : Date :=
  let z := n + 719468
  let cycle := z / 146097
  let inCycle := (z % 146097).toNat
  let year := (inCycle - inCycle / 1460 + inCycle / 36524 - inCycle / 146096) / 365
  let inYear := inCycle - (365 * year + year / 4 - year / 100)
  let m := (5 * inYear + 2) / 153
  let month := if m < 10 then m + 3 else m - 9
  ⟨year + 400 * cycle + (if month ≤ 2 then 1 else 0), month, inYear - (153 * m + 2) / 5 + 1⟩

end Date

end TeamRoster
