import MailRules.Error
import MailRules.Calendar.Duration
import MailRules.Calendar.Iso
/-!
The texts that arguments are sent as: strings as they are written, sizes and numbers in decimal,
dates in the form of searches, and a duration as the date that lies so far back.
-/
namespace MailRules.Search
open MailRules.Text MailRules.Calendar MailRules.Number

def refuse {α : Type} (field kind detail : String) (l : Location) : Except Failure α :=
  .error (.error (.valueDecode field kind detail l))

def scalarOf (field kind : String) : Operand → Except Failure Leaf
  | .nested p => refuse field kind "expected a scalar, got a precondition" p.location
  | .leaf l =>
    if l.isScalar then .ok l
    else refuse field kind ("expected a scalar, got " ++ quoted l.text) l.location

def stringText (field : String) (o : Operand) : Except Failure String := do
  return (← scalarOf field "string" o).text

def maxUint32 : Int := 0xFFFFFFFF

/-- A number that cannot be written cannot be refused by name either. -/
def uint32Text (field : String) (o : Operand) : Except Failure String := do
  let l ← scalarOf field "uint32" o
  match l.datum with
  | .int i =>
    if 0 ≤ i ∧ i ≤ maxUint32 then return signedDecimal i
    else if writable i then refuse field "uint32" (signedDecimal i ++ " is out of range") l.location
    else .error (.fault .integerTooLong)
  | _ => refuse field "uint32" (quoted l.text ++ " is not an integer") l.location

def dateOf? : Yaml.Datum → Option Date
  | .date d => some d
  | .moment m => some m.date
  | .text s => Iso.date? s.toList
  | _ => none

def dateText (field : String) (o : Operand) : Except Failure String := do
  let l ← scalarOf field "date" o
  match dateOf? l.datum with
  | some d => return d.searchText
  | none => refuse field "date" (quoted l.text ++ " is not a date") l.location

def durationText (now : Moment) (field : String) (o : Operand) : Except Failure String := do
  let l ← scalarOf field "duration" o
  match Duration.read l.text with
  | .error e => refuse field "duration" e.message l.location
  | .ok span =>
    match now.dateBefore? span with
    | some d => return d.searchText
    | none => refuse field "duration" (quoted l.text ++ " is out of range") l.location

end MailRules.Search
