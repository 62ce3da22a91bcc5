import MailRules.Number.Double
import MailRules.Text.Digit
/-!
Spans of time in whole microseconds, of at most 999999999 days either way, and the span of a number
of seconds.
-/
namespace MailRules.Calendar
open MailRules.Number MailRules.Text

structure Span where
  microseconds : Int
  deriving DecidableEq, Repr

def microsecondsPerDay : Nat := 86400000000

namespace Span

def days (s : Span) : Int := s.microseconds / microsecondsPerDay

def seconds (s : Span) : Int := s.microseconds % microsecondsPerDay / 1000000

def remainder (s : Span) : Int := s.microseconds % 1000000

def maxDays : Int := 999999999

inductive Failure
  /-- The number of seconds is infinite. -/
  | infinite
  | notANumber
  /-- The number of days needs more than 32 bits. -/
  | daysBeyondWord
  | tooManyDays (days : Int)

def Failure.message : Failure → String
  | .infinite => "cannot convert float infinity to integer"
  | .notANumber => "cannot convert float NaN to integer"
  | .daysBeyondWord => "Python int too large to convert to C int"
  | .tooManyDays days =>
    "days=" ++ signedDecimal days ++ "; must have magnitude <= 999999999"

def ofMicroseconds (n : Int) : Except Failure Span :=
  let s : Span := ⟨n⟩
  if s.days < -0x80000000 ∨ 0x80000000 ≤ s.days then .error .daysBeyondWord
  else if s.days < -maxDays ∨ maxDays < s.days then .error (.tooManyDays s.days)
  else .ok s

/-- The millionths in the fraction of `significand * 2 ^ exponent`: the fraction times a million is
rounded to binary64 and then to a whole number, ties to even. -/
def fractionMicroseconds (significand : Nat) (exponent : Int) : Nat :=
  let (n, d) := Double.scaledQuotient significand 1 exponent
  match Double.ofQuotient false (n % d) d * Double.ofNat 1000000 with
  | .finite _ m e =>
    let (n, d) := Double.scaledQuotient m 1 e
    roundQuotient n d
  | _ => 0

def ofSeconds : Double → Except Failure Span
  | .nan => .error .notANumber
  | .infinite _ => .error .infinite
  | .finite s m e =>
    let (n, d) := Double.scaledQuotient m 1 e
    ofMicroseconds (Double.signed s (n / d * 1000000 + fractionMicroseconds m e))

end Span
end MailRules.Calendar
