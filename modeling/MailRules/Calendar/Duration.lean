import MailRules.Calendar.Span
import MailRules.Number.Numeral
/-!
Written durations such as `1h30m` or `-2.5d`: a sign, then parts without gaps, each a decimal number
and a unit. The lone digit zero is a duration too.
-/
namespace MailRules.Calendar.Duration
open MailRules.Text MailRules.Number

inductive TimeUnit
  | ns
  | us
  /-- Spelled with the micro sign. -/
  | microSign
  /-- Spelled with the Greek letter. -/
  | greekMu
  | ms
  | s
  | m
  | h
  | d
  | w
  deriving DecidableEq, Repr

namespace TimeUnit

/-- A unit stands before every unit whose spelling is the start of its own. -/
def all : List TimeUnit := [ns, us, microSign, greekMu, ms, s, m, h, d, w]

def spelling : TimeUnit → List Char
  | ns => ['n', 's']
  | us => ['u', 's']
  | microSign => ['\u00b5', 's']
  | greekMu => ['\u03bc', 's']
  | ms => ['m', 's']
  | s => ['s']
  | m => ['m']
  | h => ['h']
  | d => ['d']
  | w => ['w']

def seconds : TimeUnit → Double
  | ns => .ofDecimal false 1 (-9)
  | us | microSign | greekMu => .ofDecimal false 1 (-6)
  | ms => .ofDecimal false 1 (-3)
  | s => .ofNat 1
  | m => .ofNat 60
  | h => .ofNat 3600
  | d => .ofNat 86400
  | w => .ofNat 604800

end TimeUnit

structure Part where
  whole : List Char
  fraction : Option (List Char)
  unit : TimeUnit
  deriving DecidableEq, Repr

def Part.text (p : Part) : List Char :=
  p.whole ++ (match p.fraction with | some ds => '.' :: ds | none => []) ++ p.unit.spelling

def Part.fractionDigits (p : Part) : List Char := p.fraction.getD []

/-- The number is read to binary64 before it is multiplied by the unit. -/
def Part.seconds (p : Part) : Double :=
  .ofDecimal false (ofDigits ((p.whole ++ p.fractionDigits).filterMap digitValue?))
    (-p.fractionDigits.length) * p.unit.seconds

def unitAt? (cs : List Char) : Option TimeUnit :=
  TimeUnit.all.find? fun u => u.spelling.isPrefixOf cs

def partAt? (cs : List Char) : Option (Part × List Char) :=
  let whole := cs.takeWhile isDecimalDigit
  let rest := cs.drop whole.length
  let (fraction, rest) := match rest with
    | '.' :: more =>
      let ds := more.takeWhile isDecimalDigit
      (some ds, more.drop ds.length)
    | _ => (none, rest)
  if whole.isEmpty && (fraction.getD []).isEmpty then none
  else
    match unitAt? rest with
    | some unit => some (⟨whole, fraction, unit⟩, rest.drop unit.spelling.length)
    | none => none

structure Found where
  part : Part
  start : Nat
  stop : Nat
  deriving DecidableEq, Repr

/-- The parts that stand in `cs`, looked for from left to right. A part that is found is passed over
as a whole; where none is, one character is. `place` counts the characters before `cs`, and `skip`
those of `cs` that are still to be passed over. -/
def partsFrom (place skip : Nat) : List Char → List Found
  | [] => []
  | c :: cs =>
    match skip with
    | left + 1 => partsFrom (place + 1) left cs
    | 0 =>
      match partAt? (c :: cs) with
      | some (part, rest) =>
        ⟨part, place, place + ((c :: cs).length - rest.length)⟩ ::
          partsFrom (place + 1) (cs.length - rest.length) cs
      | none => partsFrom (place + 1) 0 cs

def visit (place : Nat) : List Found → List Part × Nat
  | [] => ([], place)
  | f :: rest =>
    if f.start = place then
      let (parts, stop) := visit f.stop rest
      (f.part :: parts, stop)
    else ([], place)

def parts? (cs : List Char) : Option (List Part) :=
  let (parts, stop) := visit 0 (partsFrom 0 0 cs)
  if stop = cs.length then some parts else none

inductive Failure
  /-- The text is no duration. -/
  | invalid (text : String)
  /-- It is one, but no span is as long. -/
  | beyondSpans (failure : Span.Failure)

def Failure.message : Failure → String
  | .invalid text => "invalid duration " ++ quoted text
  | .beyondSpans failure => failure.message

/-- The parts are added from the left, in binary64. -/
def totalSeconds (parts : List Part) : Double :=
  parts.foldl (fun sum p => sum + p.seconds) (.zero false)

def read (text : String) : Except Failure Span :=
  let (negative, body) := splitSign (trim text.toList)
  if body = ['0'] then .ok ⟨0⟩
  else
    match parts? body with
    | some (part :: parts) =>
      let seconds := totalSeconds (part :: parts)
      (Span.ofSeconds (if negative then -seconds else seconds)).mapError .beyondSpans
    | _ => .error (.invalid text)

end MailRules.Calendar.Duration
