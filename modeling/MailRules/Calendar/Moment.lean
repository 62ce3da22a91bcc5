import MailRules.Calendar.Date
import MailRules.Calendar.Span
/-!
Moments: a date, a time of day to the microsecond and, where it is known, the offset from universal
time.
-/
namespace MailRules.Calendar
open MailRules.Text

structure Moment where
  date : Date
  hour : Nat
  minute : Nat
  second : Nat
  microsecond : Nat
  /-- The offset in microseconds, less than a day either way. -/
  offset : Option Int
  deriving DecidableEq, Repr

namespace Moment

def timeOfDay (m : Moment) : Nat :=
  ((m.hour * 60 + m.minute) * 60 + m.second) * 1000000 + m.microsecond

def wallClock (m : Moment) : Int := m.date.dayNumber * microsecondsPerDay + m.timeOfDay

/-- The date that a span before the moment falls on, by the moment's own clock; none outside the
years of the calendar. -/
def dateBefore? (m : Moment) (s : Span) : Option Date :=
  Date.ofDayNumber? ((m.wallClock - s.microseconds) / microsecondsPerDay)

/-- The same instant, or, of moments without an offset, the same reading of the clock. -/
def same (a b : Moment) : Bool :=
  match a.offset, b.offset with
  | some x, some y => a.wallClock - x == b.wallClock - y
  | none, none => a.wallClock == b.wallClock
  | _, _ => false

def ofEpoch (microseconds : Nat) : Moment :=
  let seconds := microseconds / 1000000
  ⟨Date.ofDayNumber (Date.dayNumber ⟨1970, 1, 1⟩ + seconds / 86400), seconds / 3600 % 24,
    seconds / 60 % 60, seconds % 60, microseconds % 1000000, some 0⟩

def offsetText (microseconds : Int) : String :=
  let fraction := microseconds.natAbs % 1000000
  let seconds := microseconds.natAbs / 1000000
  (if microseconds < 0 then "-" else "+") ++ zeroPadded 2 (seconds / 3600) ++ ":" ++
    zeroPadded 2 (seconds / 60 % 60) ++
    (if seconds % 60 = 0 ∧ fraction = 0 then "" else ":" ++ zeroPadded 2 (seconds % 60)) ++
    (if fraction = 0 then "" else "." ++ zeroPadded 6 fraction)

def isoText (separator : Char) (m : Moment) : String :=
  m.date.isoText ++ separator.toString ++ zeroPadded 2 m.hour ++ ":" ++ zeroPadded 2 m.minute ++
    ":" ++ zeroPadded 2 m.second ++
    (if m.microsecond = 0 then "" else "." ++ zeroPadded 6 m.microsecond) ++
    (m.offset.map offsetText).getD ""

end Moment

inductive OutOfRange
  | year (year : Nat)
  | month
  | day
  | hour
  | minute
  | second
  /-- The offset, in seconds, is a day or more. -/
  | offset (seconds : Int)

def spanParts (days seconds : Int) : String :=
  let parts := (if days = 0 then [] else ["days=" ++ signedDecimal days]) ++
    (if seconds = 0 then [] else ["seconds=" ++ signedDecimal seconds])
  "datetime.timedelta(" ++ ", ".intercalate parts ++ ")"

def OutOfRange.message : OutOfRange → String
  | .year y => "year " ++ decimal y ++ " is out of range"
  | .month => "month must be in 1..12"
  | .day => "day is out of range for month"
  | .hour => "hour must be in 0..23"
  | .minute => "minute must be in 0..59"
  | .second => "second must be in 0..59"
  | .offset s =>
    "offset must be a timedelta strictly between -timedelta(hours=24) and timedelta(hours=24)," ++
      " not " ++ spanParts (s / 86400) (s % 86400) ++ "."

def checkedDate (year month day : Nat) : Except OutOfRange Date :=
  if year < 1 ∨ maxYear < year then .error (.year year)
  else if month < 1 ∨ 12 < month then .error .month
  else if day < 1 ∨ daysInMonth year month < day then .error .day
  else .ok ⟨year, month, day⟩

def checkedMoment (year month day hour minute second microsecond : Nat) (offset : Option Int) :
    Except OutOfRange Moment := do
  let date ← checkedDate year month day
  if 24 ≤ hour then .error .hour
  else if 60 ≤ minute then .error .minute
  else if 60 ≤ second then .error .second
  else .ok ⟨date, hour, minute, second, microsecond, offset⟩

end MailRules.Calendar
