import MailRules.Yaml.Datum
import MailRules.Yaml.Tag
import MailRules.Fault
import MailRules.Number.Numeral
import MailRules.Text.Base64
import MailRules.Text.Case
import MailRules.Text.Encoding
/-!
The values of scalars, read from their text under a tag.
-/
namespace MailRules.Yaml
open MailRules.Text MailRules.Number MailRules.Calendar

inductive ScalarFailure
  /-- The text is refused, in the words of the value's own reader. -/
  | refused (reason : String)
  /-- The text is refused as the content of a node. -/
  | content (reason : String)
  | fault (f : Fault)

namespace ScalarValue

def bool (cs : List Char) : Except ScalarFailure Datum :=
  let word := lowerCase cs
  if isOneOf ["yes", "true", "on"] word then .ok (.bool true)
  else if isOneOf ["no", "false", "off"] word then .ok (.bool false)
  else .error (.fault .unknownBoolean)

def integer (base : Nat) (cs : List Char) : Except ScalarFailure Int :=
  (readInteger base cs).mapError fun e => .refused (e.message base cs)

def sexagesimal (places : List Int) : Int := places.foldl (fun n p => n * 60 + p) 0

def withoutUnderscores (cs : List Char) : List Char := cs.filter (· ≠ '_')

/-- A whole number: binary, hexadecimal, octal after a zero, sexagesimal with colons, or decimal. -/
def int (cs : List Char) : Except ScalarFailure Datum := do
  let cs := withoutUnderscores cs
  if cs.isEmpty then throw (.fault .emptyNumber)
  let (negative, body) := splitSign cs
  let magnitude ←
    match body with
    | [] => throw (.fault .emptyNumber)
    | ['0'] => pure 0
    | '0' :: 'b' :: digits => integer 2 digits
    | '0' :: 'x' :: digits => integer 16 digits
    | '0' :: _ => integer 8 body
    | _ =>
      if body.contains ':' then
        pure (sexagesimal (← (colonPieces body).mapM (integer 10)))
      else integer 10 body
  return .int (if negative then -magnitude else magnitude)

def double (cs : List Char) : Except ScalarFailure Double :=
  match readDouble? cs with
  | some x => .ok x
  | none => .error (.refused (doubleMessage cs))

def sexagesimalDouble (sum : Double) (place : Nat) : List Double → Except ScalarFailure Double
  | [] => .ok sum
  | x :: rest =>
    match Double.ofNat place with
    | .infinite _ => .error (.fault .placeBeyondDouble)
    | p => sexagesimalDouble (sum + x * p) (place * 60) rest

def floatWord (cs : List Char) : List Char := lowerCase (withoutUnderscores cs)

def nanWord : List Char := ".nan".toList

def float (cs : List Char) : Except ScalarFailure Datum := do
  let cs := floatWord cs
  if cs.isEmpty then throw (.fault .emptyNumber)
  let (negative, body) := splitSign cs
  let signed (x : Double) : Double := if negative then -x else x
  if body = ".inf".toList then return .float (.infinite negative)
  else if body = nanWord then return .float .nan
  else if body.contains ':' then
    let places ← (colonPieces body).mapM double
    return .float (signed (← sexagesimalDouble (.zero false) 1 places.reverse))
  else return .float (signed (← double body))

def binary (cs : List Char) : Except ScalarFailure Datum :=
  match asciiOctets cs with
  | .error bad => .error (.content ("failed to convert base64 data into ascii: " ++ bad.message))
  | .ok octets =>
    match Base64.decode octets with
    | .error e => .error (.content ("failed to decode base64 data: " ++ e.message))
    | .ok bytes => .ok (.bytes bytes)

def number (cs : List Char) : Nat := ofDigits (cs.map fun c => c.toNat - 48)

def microseconds (digits : List Char) : Nat :=
  let ds := digits.take 6
  number ds * tenTo (6 - ds.length)

def offsetSeconds : Option (Char × List Char × List Char) → Int
  | none => 0
  | some (sign, hours, minutes) => Double.signed (sign = '-') (number hours * 3600 + number minutes * 60)

def outOfRange (e : OutOfRange) : ScalarFailure := .refused e.message

def timestamp (cs : List Char) : Except ScalarFailure Datum := do
  let some t := timestampText? (if cs.getLast? = some '\n' then cs.dropLast else cs)
    | throw (.fault .noTimestamp)
  let (year, month, day) := (number t.year, number t.month, number t.day)
  match t.time with
  | none => return .date (← (checkedDate year month day).mapError outOfRange)
  | some (hour, minute, second) =>
    let offset := t.offset.map offsetSeconds
    match offset with
    | some s => if 86400 ≤ s.natAbs then throw (outOfRange (.offset s))
    | none => pure ()
    let m ← (checkedMoment year month day (number hour) (number minute) (number second)
      (microseconds t.fraction) (offset.map (· * 1000000))).mapError outOfRange
    return .moment m

end ScalarValue
end MailRules.Yaml
