import MailRules.Number.Double
import MailRules.Text.Digit
import MailRules.Text.Quoted
/-!
Written numbers. Blanks around a numeral are dropped, digits may be of any script, and one
underscore may stand between two digits.
-/
namespace MailRules.Number
open MailRules.Text

def isNumeralBlank (c : Char) : Bool :=
  isBlank c && !(0x1C ≤ c.toNat && c.toNat ≤ 0x1F)

def trimNumeral (cs : List Char) : List Char :=
  ((cs.dropWhile isNumeralBlank).reverse.dropWhile isNumeralBlank).reverse

def placeValue? (c : Char) : Option Nat :=
  if 'a' ≤ c ∧ c ≤ 'z' then some (c.toNat - 87)
  else if 'A' ≤ c ∧ c ≤ 'Z' then some (c.toNat - 55)
  else digitValue? c

def placeValueIn? (base : Nat) (c : Char) : Option Nat :=
  (placeValue? c).filter (· < base)

def splitSign : List Char → Bool × List Char
  | '-' :: rest => (true, rest)
  | '+' :: rest => (false, rest)
  | cs => (false, cs)

inductive NumeralError
  | invalid
  /-- More decimal digits than a numeral may have. -/
  | tooLong (digits : Nat)

/-- The most decimal digits of an integer numeral, read or written. -/
def digitLimit : Nat := 4300

/-- The longest run of digits and single underscores at the start, as digit values, with what
follows it; none when an underscore does not stand between two digits. -/
def digitRun? (base : Nat) (cs : List Char) : Option (List Nat × List Char) :=
  let run := cs.takeWhile fun c => c = '_' || (placeValueIn? base c).isSome
  let misplaced := run.head? = some '_' || run.getLast? = some '_' ||
    (run.zip run.tail).any fun p => p.1 = '_' && p.2 = '_'
  if misplaced then none
  else some (run.filterMap (placeValueIn? base), cs.drop run.length)

def dropBaseMarker (base : Nat) : List Char → List Char
  | '0' :: c :: rest =>
    if (base = 16 ∧ c.toLower = 'x') ∨ (base = 8 ∧ c.toLower = 'o') ∨ (base = 2 ∧ c.toLower = 'b')
    then match rest with
      | '_' :: rest' => rest'
      | _ => rest
    else '0' :: c :: rest
  | cs => cs

def readInteger (base : Nat) (text : List Char) : Except NumeralError Int :=
  let (negative, body) := splitSign (trimNumeral text)
  match digitRun? base (dropBaseMarker base body) with
  | none => .error .invalid
  | some (digits, rest) =>
    if base = 10 ∧ digitLimit < digits.length then .error (.tooLong digits.length)
    else if digits.isEmpty || !rest.isEmpty then .error .invalid
    else .ok (Double.signed negative (digits.foldl (fun n d => base * n + d) 0))

def NumeralError.message (base : Nat) (text : List Char) : NumeralError → String
  | .invalid =>
    "invalid literal for int() with base " ++ decimal base ++ ": " ++
      String.ofList ((quotedChars text).take 200)
  | .tooLong digits =>
    "Exceeds the limit (" ++ decimal digitLimit ++
      " digits) for integer string conversion: value has " ++ decimal digits ++
      " digits; use sys.set_int_max_str_digits() to increase the limit"

def writable (i : Int) : Bool := i.natAbs < tenTo digitLimit

def readFraction (negative : Bool) (whole : List Nat) (rest : List Char) : Option Double := do
  let (fraction, rest) ← match rest with
    | '.' :: more => digitRun? 10 more
    | _ => some ([], rest)
  if whole.isEmpty && fraction.isEmpty then none
  else
    let significand := ofDigits (whole ++ fraction)
    match rest with
    | [] => some (.ofDecimal negative significand (-fraction.length))
    | c :: more =>
      if c = 'e' ∨ c = 'E' then
        let (down, digits) := splitSign more
        match digitRun? 10 digits with
        | some (d :: ds, []) =>
          some (.ofDecimal negative significand
            (Double.signed down (ofDigits (d :: ds)) - fraction.length))
        | _ => none
      else none

def readDouble? (text : List Char) : Option Double :=
  let (negative, body) := splitSign (trimNumeral text)
  let word := body.map Char.toLower
  if word = "inf".toList ∨ word = "infinity".toList then some (.infinite negative)
  else if word = "nan".toList then some .nan
  else do
    let (whole, rest) ← digitRun? 10 body
    readFraction negative whole rest

def doubleMessage (text : List Char) : String :=
  "could not convert string to float: " ++ String.ofList (quotedChars text)

end MailRules.Number
