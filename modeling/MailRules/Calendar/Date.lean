import MailRules.Text.Digit
/-!
Dates of the proleptic Gregorian calendar, years 1 to 9999, and their day numbers. Day 1 is the
first of January of year 1, a Monday.
-/
namespace MailRules.Calendar
open MailRules.Text

structure Date where
  year : Nat
  month : Nat
  day : Nat
  deriving DecidableEq, Repr

def isLeap (year : Nat) : Bool := year % 4 = 0 && (year % 100 != 0 || year % 400 = 0)

def monthLengths (year : Nat) : List Nat :=
  [31, if isLeap year then 29 else 28, 31, 30, 31, 30, 31, 31, 30, 31, 30, 31]

def daysInMonth (year month : Nat) : Nat := (monthLengths year).getD (month - 1) 0

def daysBeforeYear (year : Nat) : Nat :=
  let y := year - 1
  y * 365 + y / 4 - y / 100 + y / 400

def daysBeforeMonth (year month : Nat) : Nat := ((monthLengths year).take (month - 1)).foldl (· + ·) 0

def maxYear : Nat := 9999

def Date.Valid (d : Date) : Prop :=
  1 ≤ d.year ∧ d.year ≤ maxYear ∧ 1 ≤ d.month ∧ d.month ≤ 12 ∧ 1 ≤ d.day ∧
    d.day ≤ daysInMonth d.year d.month

instance (d : Date) : Decidable d.Valid := by unfold Date.Valid; infer_instance

def Date.dayNumber (d : Date) : Nat :=
  daysBeforeYear d.year + daysBeforeMonth d.year d.month + d.day

/-- The month and the day of the month that lie `days` days after the start of the first month
listed, months being counted from `month`. -/
def monthAndDay (month days : Nat) : List Nat → Nat × Nat
  | [] => (month, days + 1)
  | length :: rest =>
    if days < length then (month, days + 1) else monthAndDay (month + 1) (days - length) rest

/-- The date of a day number. Whole cycles of 400, 100, 4 and 1 years are split off in turn; the
last day of a cycle of 400 or 4 years would begin a fifth part, and stays in the fourth. -/
def Date.ofDayNumber (n : Nat) : Date :=
  let n := n - 1
  let (n400, n) := (n / 146097, n % 146097)
  let (n100, n) := (n / 36524, n % 36524)
  let (n4, n) := (n / 1461, n % 1461)
  let (n1, n) := (n / 365, n % 365)
  let year := n400 * 400 + n100 * 100 + n4 * 4 + n1 + 1
  if n1 = 4 ∨ n100 = 4 then ⟨year - 1, 12, 31⟩
  else
    let (month, day) := monthAndDay 1 n (monthLengths year)
    ⟨year, month, day⟩

def maxDayNumber : Nat := 3652059

def Date.ofDayNumber? (n : Int) : Option Date :=
  if 1 ≤ n ∧ n ≤ maxDayNumber then some (.ofDayNumber n.toNat) else none

def monthNames : List String :=
  ["Jan", "Feb", "Mar", "Apr", "May", "Jun", "Jul", "Aug", "Sep", "Oct", "Nov", "Dec"]

def Date.isoText (d : Date) : String :=
  zeroPadded 4 d.year ++ "-" ++ zeroPadded 2 d.month ++ "-" ++ zeroPadded 2 d.day

def Date.searchText (d : Date) : String :=
  zeroPadded 2 d.day ++ "-" ++ monthNames.getD (d.month - 1) "" ++ "-" ++ decimal d.year

end MailRules.Calendar
