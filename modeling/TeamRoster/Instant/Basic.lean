/-!
# Instants

A point in time in UTC, counted in minutes since 1970 and nanoseconds within the minute. A minute
has room for a leap second, so that the offset of a time zone, which is a number of minutes, never
touches the second. The database counts microseconds since the start of 2000, which it does for some
hundred thousand years.
-/

namespace TeamRoster

/-- A point in time. -/
structure Instant where
  /-- Minutes since the start of 1970. -/
  minute : Int
  /-- Nanoseconds since the start of the minute; the last second of a minute may be a leap
  second. -/
  nanos : Nat
  nanos_lt : nanos < 61000000000
deriving DecidableEq

namespace Instant

/-- The instant a number of seconds after the start of 1970. -/
def ofSeconds (s : Int) : Instant :=
  ⟨s / 60, (s % 60).toNat * 1000000000, by omega⟩

/-- The instant a number of nanoseconds after the start of 1970. -/
def ofNanos (n : Nat) : Instant :=
  ⟨n / 60000000000, n % 60000000000, by omega⟩

/-- Order in time. -/
def ble (a b : Instant) : Bool :=
  decide (a.minute < b.minute ∨ (a.minute = b.minute ∧ a.nanos ≤ b.nanos))

/-- The minute with which the database starts to count: the first one of 2000. -/
def epochMinute : Int := 15778080

/-- The whole microseconds between the start of 2000 and an instant, before or after it. What is left
over is cut off, and a leap second is counted as the first second of the next minute. -/
def ticks (i : Instant) : Int :=
  ((i.minute - epochMinute) * 60000000000 + i.nanos).tdiv 1000

/-- The instant this many microseconds after the start of 2000. -/
def ofTicks (n : Int) : Instant :=
  ⟨epochMinute + n / 60000000, (n % 60000000).toNat * 1000, by omega⟩

/-- The instant that is read for one that was stored. -/
def toMicros (i : Instant) : Instant :=
  ofTicks i.ticks

/-- Whether the database can store an instant: it has those from the start of its count of days, in 4713
BC, to the end of the year 294276. -/
def isStorable (i : Instant) : Bool :=
  decide (-211813488000000000 ≤ i.ticks ∧ i.ticks < 9223371331200000000)

end Instant

end TeamRoster
