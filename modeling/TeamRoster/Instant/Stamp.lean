import TeamRoster.Instant.Basic
import TeamRoster.Instant.Calendar
import TeamRoster.Text.Blank
import TeamRoster.Text.Decimal

/-!
# Time stamps

Instants are written in UTC as RFC 3339 has it, with the fewest of 0, 3, 6 or 9 digits of a second
that hold the value. Reading is more liberal: white space may stand around the parts, the date and
the time may be set apart by a space, fields may be short of a digit, the zone may be any offset in
minutes, `Z` or `UTC`, and digits below a nanosecond are dropped.
-/

namespace TeamRoster

namespace Stamp

open Text

/-- The first and last year that a stamp may name. -/
def yearBounds : Int × Int :=
  (-262143, 262142)

/-- What is left behind a given character, with white space allowed in front of it. -/
def mark? (c : Char) (cs : List Char) : Option (List Char) :=
  match trimStart cs with
  | d :: rest => if d = c then some rest else none
  | [] => none

/-- A field of one or two digits within bounds, with white space allowed in front of it. -/
def field? (low high : Nat) (cs : List Char) : Option (Nat × List Char) := do
  let (n, rest) ← readDigits? 2 (trimStart cs)
  if low ≤ n ∧ n ≤ high then some (n, rest) else none

/-- The year: up to four digits, or any number of them behind a sign. -/
def year? (cs : List Char) : Option (Int × List Char) :=
  match trimStart cs with
  | '-' :: rest => (readDigits? rest.length rest).map fun (n, rest) => (-(n : Int), rest)
  | '+' :: rest => (readDigits? rest.length rest).map fun (n, rest) => ((n : Int), rest)
  | cs => (readDigits? 4 cs).map fun (n, rest) => ((n : Int), rest)

/-- Whether a year is within bounds. -/
def isYear (y : Int) : Bool :=
  decide (yearBounds.1 ≤ y ∧ y ≤ yearBounds.2)

/-- A date that exists. -/
def date? (cs : List Char) : Option (Date × List Char) := do
  let (y, cs) ← year? cs
  let cs ← mark? '-' cs
  let (m, cs) ← field? 1 12 cs
  let cs ← mark? '-' cs
  let (d, cs) ← field? 1 31 cs
  let date : Date := ⟨y, m, d⟩
  if date.isValid && isYear y then some (date, cs) else none

/-- What is left behind the character that sets the time off from the date. -/
def separator? : List Char → Option (List Char)
  | 'T' :: cs | 't' :: cs | ' ' :: cs => some cs
  | _ => none

/-- A fraction of a second in nanoseconds: zero if there is no point, else the first nine digits
behind it. -/
def fraction? : List Char → Option (Nat × List Char)
  | '.' :: cs =>
    (readDigits? 9 cs).map fun (n, rest) =>
      (n * Nat.pow 10 (9 - (cs.length - rest.length)), rest.dropWhile Char.isDigit)
  | cs => some (0, cs)

/-- Minutes since midnight and nanoseconds within the minute. Second 60 is a leap second. -/
def time? (cs : List Char) : Option ((Nat × Nat) × List Char) := do
  let (h, cs) ← field? 0 23 cs
  let cs ← mark? ':' cs
  let (m, cs) ← field? 0 59 cs
  let cs ← mark? ':' cs
  let (s, cs) ← field? 0 60 cs
  let (f, cs) ← fraction? cs
  some ((60 * h + m, 1000000000 * s + f), cs)

/-- Two digits of an offset. -/
def twoDigits? : List Char → Option (Nat × List Char)
  | a :: b :: rest => if a.isDigit && b.isDigit then some (digitsValue [a, b], rest) else none
  | _ => none

/-- The hours and minutes behind the sign of an offset, in minutes: less than a day. -/
def offsetMinutes? (cs : List Char) : Option (Nat × List Char) := do
  let (h, cs) ← twoDigits? cs
  let (m, cs) ← twoDigits? (cs.dropWhile fun c => c == ':' || isBlank c)
  if h ≤ 23 ∧ m ≤ 59 then some (60 * h + m, cs) else none

/-- How many minutes local time is ahead of UTC. -/
def zone? (cs : List Char) : Option (Int × List Char) :=
  match cs with
  | 'Z' :: rest | 'z' :: rest => some (0, rest)
  | '+' :: rest => (offsetMinutes? rest).map fun (n, rest) => ((n : Int), rest)
  | '-' :: rest | '\u2212' :: rest => (offsetMinutes? rest).map fun (n, rest) => (-(n : Int), rest)
  | _ => if (cs.take 3).map Char.toUpper = ['U', 'T', 'C'] then some (0, cs.drop 3) else none

/-- The instant that a text names. -/
def read? (s : String) : Option Instant := do
  let (date, cs) ← date? s.toList
  let cs ← separator? cs
  let ((minute, nanos), cs) ← time? cs
  let (ahead, cs) ← zone? (trimStart cs)
  let utc := 1440 * date.toDays + minute - ahead
  if h : nanos < 61000000000 then
    if (trimStart cs).isEmpty && isYear (Date.ofDays (utc / 1440)).year then
      some ⟨utc, nanos, h⟩
    else none
  else none

/-- The year in four digits; with a sign where four digits do not hold it. -/
def yearText (y : Int) : List Char :=
  if 0 ≤ y ∧ y ≤ 9999 then padded 4 y.toNat
  else (if y < 0 then '-' else '+') :: padded 4 y.natAbs

/-- A part of a second, with no more digits than it needs. -/
def fractionText (f : Nat) : List Char :=
  if f = 0 then []
  else if f % 1000000 = 0 then '.' :: padded 3 (f / 1000000)
  else if f % 1000 = 0 then '.' :: padded 6 (f / 1000)
  else '.' :: padded 9 f

/-- The characters of a written instant. -/
def chars (i : Instant) : List Char :=
  let date := Date.ofDays (i.minute / 1440)
  let minute := (i.minute % 1440).toNat
  yearText date.year ++ '-' :: padded 2 date.month ++ '-' :: padded 2 date.day ++
    'T' :: padded 2 (minute / 60) ++ ':' :: padded 2 (minute % 60) ++
    ':' :: padded 2 (i.nanos / 1000000000) ++ fractionText (i.nanos % 1000000000) ++ ['Z']

/-- Write an instant. -/
def write (i : Instant) : String :=
  String.ofList (chars i)

end Stamp

end TeamRoster
