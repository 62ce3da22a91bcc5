import MailRules.Text.Digit
/-!
Tags of nodes, and the tag that a scalar without one gets from its text.
-/
namespace MailRules.Yaml
open MailRules.Text

namespace Tag

def repository : String := "tag:yaml.org,2002:"

def null : String := "tag:yaml.org,2002:null"
def bool : String := "tag:yaml.org,2002:bool"
def int : String := "tag:yaml.org,2002:int"
def float : String := "tag:yaml.org,2002:float"
def binary : String := "tag:yaml.org,2002:binary"
def timestamp : String := "tag:yaml.org,2002:timestamp"
def omap : String := "tag:yaml.org,2002:omap"
def pairs : String := "tag:yaml.org,2002:pairs"
def set : String := "tag:yaml.org,2002:set"
def str : String := "tag:yaml.org,2002:str"
def seq : String := "tag:yaml.org,2002:seq"
def map : String := "tag:yaml.org,2002:map"
def merge : String := "tag:yaml.org,2002:merge"
def value : String := "tag:yaml.org,2002:value"
def yaml : String := "tag:yaml.org,2002:yaml"

end Tag

/-! The forms of scalars -/

def dropSign : List Char → List Char
  | '+' :: rest => rest
  | '-' :: rest => rest
  | cs => cs

def isDigitOrUnderscore (c : Char) : Bool := isAsciiDigit c || c = '_'

def isNumberRun : List Char → Bool
  | c :: rest => isAsciiDigit c && rest.all isDigitOrUnderscore
  | [] => false

def isExponent : List Char → Bool
  | [] => true
  | c :: s :: d :: rest =>
    (c = 'e' || c = 'E') && (s = '+' || s = '-') && isAsciiDigit d && rest.all isAsciiDigit
  | _ => false

def colonPieces (cs : List Char) : List (List Char) := cs.splitOn ':'

def isSexagesimalPlace : List Char → Bool
  | [d] => isAsciiDigit d
  | [t, d] => '0' ≤ t && t ≤ '5' && isAsciiDigit d
  | _ => false

def isSexagesimal (isFirst : List Char → Bool) (cs : List Char) : Bool :=
  match colonPieces cs with
  | first :: place :: places => isFirst first && (place :: places).all isSexagesimalPlace
  | _ => false

def isInfinityWord (cs : List Char) : Bool :=
  [".inf", ".Inf", ".INF"].any fun w => w.toList = cs

def isNanWord (cs : List Char) : Bool := [".nan", ".NaN", ".NAN"].any fun w => w.toList = cs

def isFloatText (cs : List Char) : Bool :=
  let body := dropSign cs
  let whole := body.takeWhile (· ≠ '.')
  match body.drop whole.length with
  | '.' :: after =>
    let fraction := after.takeWhile isDigitOrUnderscore
    let tail := after.drop fraction.length
    (isNumberRun whole && isExponent tail) ||
      (cs.head? = some '.' && isNumberRun fraction && isExponent tail) ||
      (tail.isEmpty && isSexagesimal isNumberRun whole) ||
      isInfinityWord body || isNanWord cs
  | _ => false

def isIntText (cs : List Char) : Bool :=
  let startsAtOne : List Char → Bool := fun ds =>
    match ds with
    | d :: rest => '1' ≤ d && d ≤ '9' && rest.all isDigitOrUnderscore
    | [] => false
  let isOctal (c : Char) : Bool := ('0' ≤ c && c ≤ '7') || c = '_'
  let isBinary (c : Char) : Bool := c = '0' || c = '1' || c = '_'
  let isHex (c : Char) : Bool :=
    isDigitOrUnderscore c || ('a' ≤ c && c ≤ 'f') || ('A' ≤ c && c ≤ 'F')
  match dropSign cs with
  | '0' :: 'b' :: c :: rest => (c :: rest).all isBinary
  | '0' :: 'x' :: c :: rest => (c :: rest).all isHex
  | '0' :: rest => rest.all isOctal
  | body => startsAtOne body || isSexagesimal startsAtOne body

def digitsBetween? (low high : Nat) (cs : List Char) : Option (List Char × List Char) :=
  let ds := (cs.take high).takeWhile isAsciiDigit
  if low ≤ ds.length then some (ds, cs.drop ds.length) else none

def isSpaceOrTabChar (c : Char) : Bool := c = ' ' || c = '\t'

structure TimestampText where
  year : List Char
  month : List Char
  day : List Char
  time : Option (List Char × List Char × List Char)
  fraction : List Char
  /-- The offset: its sign, hours and minutes; no sign for universal time. -/
  offset : Option (Option (Char × List Char × List Char))
  deriving DecidableEq, Repr

def literal? (c : Char) : List Char → Option (List Char)
  | d :: rest => if d = c then some rest else none
  | [] => none

def offsetText? (cs : List Char) : Option (Option (Option (Char × List Char × List Char))) :=
  match cs.dropWhile isSpaceOrTabChar with
  | ['Z'] => some (some none)
  | c :: rest =>
    if c = '+' ∨ c = '-' then do
      let (hours, rest) ← digitsBetween? 1 2 rest
      match rest with
      | [] => some (some (some (c, hours, [])))
      | ':' :: rest =>
        let (minutes, rest) ← digitsBetween? 2 2 rest
        if rest.isEmpty then some (some (some (c, hours, minutes))) else none
      | _ => none
    else none
  | [] => if cs.isEmpty then some none else none

/-- A timestamp: a date, and optionally a time after a `T` or blanks, with a fraction of a second
and an offset. Month, day and hour have one or two digits. -/
def timestampText? (cs : List Char) : Option TimestampText := do
  let (year, rest) ← digitsBetween? 4 4 cs
  let rest ← literal? '-' rest
  let (month, rest) ← digitsBetween? 1 2 rest
  let rest ← literal? '-' rest
  let (day, rest) ← digitsBetween? 1 2 rest
  match rest with
  | [] => some ⟨year, month, day, none, [], none⟩
  | c :: more =>
    let more ←
      if c = 'T' ∨ c = 't' then some more
      else if isSpaceOrTabChar c then some (more.dropWhile isSpaceOrTabChar)
      else none
    let (hour, rest) ← digitsBetween? 1 2 more
    let rest ← literal? ':' rest
    let (minute, rest) ← digitsBetween? 2 2 rest
    let rest ← literal? ':' rest
    let (second, rest) ← digitsBetween? 2 2 rest
    let (fraction, rest) := match rest with
      | '.' :: more =>
        let ds := more.takeWhile isAsciiDigit
        (ds, more.drop ds.length)
      | _ => ([], rest)
    let offset ← offsetText? rest
    some ⟨year, month, day, some (hour, minute, second), fraction, offset⟩

/-- The form that makes a scalar without a tag a timestamp: a date alone has two digits for month
and day. -/
def isTimestampText (cs : List Char) : Bool :=
  match timestampText? cs with
  | some t => t.time.isSome || (t.month.length = 2 && t.day.length = 2)
  | none => false

def isOneOf (words : List String) (cs : List Char) : Bool := words.any fun w => w.toList = cs

def boolWords : List String :=
  ["yes", "Yes", "YES", "no", "No", "NO", "true", "True", "TRUE", "false", "False", "FALSE", "on",
   "On", "ON", "off", "Off", "OFF"]

def nullWords : List String := ["~", "null", "Null", "NULL", ""]

def forms : List (String × (List Char → Bool)) :=
  [(Tag.bool, isOneOf boolWords), (Tag.float, isFloatText), (Tag.int, isIntText),
   (Tag.merge, isOneOf ["<<"]), (Tag.null, isOneOf nullWords), (Tag.timestamp, isTimestampText),
   (Tag.value, isOneOf ["="]), (Tag.yaml, isOneOf ["!", "&", "*"])]

/-- A text counts as of a form also with one line feed after it, unless it is that line feed. -/
def withoutFinalBreak (cs : List Char) : List Char :=
  if cs.getLast? = some '\n' ∧ cs ≠ ['\n'] then cs.dropLast else cs

def Tag.ofText (cs : List Char) : String :=
  ((forms.find? fun f => f.2 (withoutFinalBreak cs)).map (·.1)).getD Tag.str

end MailRules.Yaml
