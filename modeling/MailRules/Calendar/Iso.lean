import MailRules.Calendar.Moment
/-!
The reader of ISO 8601 dates with an optional time. The date is a calendar date or a week date, in
the extended or the basic form; any one character separates it from the time; the time has hours,
optionally minutes, seconds and a fraction, with or without colons, and an optional offset.
-/
namespace MailRules.Calendar.Iso
open MailRules.Text

def terminator : Char := '\x00'

def charAt (cs : List Char) (i : Nat) : Char := cs.getD i terminator

def takeDigits? (count : Nat) (cs : List Char) : Option (Nat × List Char) :=
  let ds := cs.take count
  if ds.length = count ∧ ds.all isAsciiDigit then
    some (ofDigits (ds.map fun c => c.toNat - 48), cs.drop count)
  else none

/-- Where the date ends. A week date without hyphens and a time are told apart by the number of
digits before the first other character; after `YYYY-Www-` two digits are taken for a time. -/
def dateLength? (cs : List Char) : Option Nat :=
  if cs.length = 7 then some 7
  else if charAt cs 4 = '-' then
    if charAt cs 5 = 'W' then
      if cs.length < 8 then none
      else if 8 < cs.length ∧ charAt cs 8 = '-' then
        if cs.length = 9 then none
        else if 10 < cs.length ∧ isAsciiDigit (charAt cs 10) then some 8
        else some 10
      else some 8
    else some 10
  else if charAt cs 4 = 'W' then
    let stop := 7 + ((cs.drop 7).takeWhile isAsciiDigit).length
    if stop < 9 then some stop else if stop % 2 = 0 then some 7 else some 8
  else some 8

def weekday (dayNumber : Nat) : Nat := (dayNumber + 6) % 7

def hasLongYear (year : Nat) : Bool :=
  let first := weekday (Date.dayNumber ⟨year, 1, 1⟩)
  first = 3 || (first = 2 && isLeap year)

def firstMonday (year : Nat) : Int :=
  let first := Date.dayNumber ⟨year, 1, 1⟩
  let monday : Int := first - weekday first
  if 3 < weekday first then monday + 7 else monday

def ofWeek? (year week day : Nat) : Option Date :=
  if year = 0 ∨ week = 0 ∨ 53 < week ∨ (week = 53 ∧ !hasLongYear year) ∨ day = 0 ∨ 7 < day then
    none
  else Date.ofDayNumber? (firstMonday year + (week - 1 : Nat) * 7 + (day - 1 : Nat))

def readDate? (length : Nat) (cs : List Char) : Option Date := do
  let (year, rest) ← takeDigits? 4 cs
  let hyphens := rest.head? = some '-'
  let rest := if hyphens then rest.drop 1 else rest
  if rest.head? = some 'W' then
    let (week, rest) ← takeDigits? 2 (rest.drop 1)
    if (if hyphens then 8 else 7) < length then
      let rest ← if hyphens then (if rest.head? = some '-' then some (rest.drop 1) else none)
        else some rest
      let (day, _) ← takeDigits? 1 rest
      ofWeek? year week day
    else ofWeek? year week 1
  else
    let (month, rest) ← takeDigits? 2 rest
    let rest ← if hyphens then (if rest.head? = some '-' then some (rest.drop 1) else none)
      else some rest
    let (day, _) ← takeDigits? 2 rest
    (checkedDate year month day).toOption

structure Clock where
  hour : Nat := 0
  minute : Nat := 0
  second : Nat := 0
  microsecond : Nat := 0
  leftover : Bool := false

def Clock.set (c : Clock) (part value : Nat) : Clock :=
  match part with
  | 0 => { c with hour := value }
  | 1 => { c with minute := value }
  | _ => { c with second := value }

def readFraction? (clock : Clock) (next : Char) (cs : List Char) : Option Clock := do
  let width := min 6 cs.length
  let (n, rest) ← takeDigits? width cs
  let rest := rest.dropWhile isAsciiDigit
  some { clock with
    microsecond := n * Number.tenTo (6 - width)
    leftover := charAt (rest ++ [next]) 0 ≠ terminator }

/-- Reads the parts from `part` on. `next` is the character that follows `cs`; `colons` says whether
the hours were followed by a colon. -/
def readClockFrom (part : Nat) (colons : Bool) (clock : Clock) (next : Char) (cs : List Char) :
    Nat → Option Clock
  | 0 => readFraction? clock next cs
  | parts + 1 => do
    let (value, rest) ← takeDigits? 2 cs
    let clock := clock.set part value
    let c := charAt (rest ++ [next]) 0
    let colons := if part = 0 then c = ':' else colons
    if rest.length ≤ 1 then
      if 0x80 ≤ c.toNat then none else some { clock with leftover := c ≠ terminator }
    else if colons ∧ c = ':' then readClockFrom (part + 1) colons clock next (rest.drop 1) parts
    else if c = '.' ∨ c = ',' then readFraction? clock next (rest.drop 1)
    else if !colons then readClockFrom (part + 1) colons clock next rest parts
    else none

def readClock? (next : Char) (cs : List Char) : Option Clock := readClockFrom 0 true {} next cs 3

def isOffsetStart (c : Char) : Bool := c = '+' || c = '-' || c = 'Z'

def readTime? (cs : List Char) : Option Clock := do
  let time := cs.takeWhile (!isOffsetStart ·)
  match cs.drop time.length with
  | [] =>
    let clock ← readClock? terminator time
    if clock.leftover then none else some clock
  | 'Z' :: rest =>
    let clock ← readClock? 'Z' time
    if charAt rest 0 = terminator then some clock else none
  | sign :: rest =>
    let clock ← readClock? sign time
    let offset ← readClock? terminator rest
    let seconds := (offset.hour * 60 + offset.minute) * 60 + offset.second
    if offset.leftover ∨ (seconds ≠ 0 ∧ 86400000000 ≤ seconds * 1000000 + offset.microsecond) then
      none
    else some clock

def date? (cs : List Char) : Option Date := do
  let length ← dateLength? cs
  let date ← readDate? length cs
  match cs.drop length with
  | [] => some date
  | _ :: rest =>
    let clock ← readTime? rest
    if clock.hour < 24 ∧ clock.minute < 60 ∧ clock.second < 60 then some date else none

end MailRules.Calendar.Iso
