import StructuredLog.Time.Calendar

/-!
Instants in nanoseconds since the epoch, and what a clock face at a fixed offset from UTC shows.
Instants are reduced to whole seconds toward zero before the calendar looks at them. An instant
occupies a signed 64-bit word, so one computed from a date wraps around at the ends of its range.
-/

namespace StructuredLog

abbrev Instant := Int

namespace Instant

open Calendar

/-- The signed 64-bit word congruent to `n` modulo `2 ^ 64`. -/
def wrap (n : Int) : Instant := Int.bmod n 18446744073709551616

def ofSeconds (n : Int) : Instant := wrap (n * 1000000000)

def seconds (t : Instant) : Int := Int.tdiv t 1000000000

def floorSeconds (t : Instant) : Int := t / 1000000000

def microsecond (t : Instant) : Int := Int.tmod (Int.tdiv t 1000) 1000000

def millisecond (t : Instant) : Int := Int.tmod (Int.tdiv t 1000000) 1000

def localSeconds (offset : Int) (t : Instant) : Int := seconds t + 60 * offset

def localDay (offset : Int) (t : Instant) : Int := localSeconds offset t / 86400

def localDate (offset : Int) (t : Instant) : Text := (dateOfDays (localDay offset t)).text

def localTime (offset : Int) (t : Instant) : Text :=
  timeText (localSeconds offset t % 86400).toNat

/-- The instant at which the local day after that of `t` begins. It is found by its date: the day of
the month goes up by one, and one past the end of the month is counted on into the next. The offset
is the same on both days: there is no daylight saving time here. -/
def nextMidnight (offset : Int) (t : Instant) : Instant :=
  let today := dateOfDays (localDay offset t)
  ofSeconds (daysOfDate { today with day := today.day + 1 } * 86400 - 60 * offset)

end Instant

/-- A wall clock that can be set, and a monotonic clock that only advances. Local time is at one
fixed offset from UTC, in minutes, at every instant: no daylight saving time, nor any other change
of the zone, is modelled. -/
structure Clock where
  wall : Instant
  monotonic : Instant
  offset : Int
  deriving DecidableEq, Repr

namespace Clock

def set (c : Clock) (t : Instant) : Clock := { c with wall := t }

def advance (c : Clock) (n : Int) : Clock :=
  { c with wall := Instant.wrap (c.wall + n), monotonic := Instant.wrap (c.monotonic + n) }

end Clock

end StructuredLog
