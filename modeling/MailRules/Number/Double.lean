import MailRules.Number.Rounding
import MailRules.Number.Power
/-!
Binary64 numbers, with every operation defined through exact arithmetic and one rounding to the
nearest representable value, ties to even.
-/
namespace MailRules.Number

/-- A binary64 value. A finite one is `significand * 2 ^ exponent`; the operations below keep
`significand < 2 ^ 53` and `-1074 ≤ exponent`, and the exponent is the least possible unless the
significand has all its 53 bits. -/
inductive Double where
  | finite (negative : Bool) (significand : Nat) (exponent : Int)
  | infinite (negative : Bool)
  | nan
  deriving DecidableEq, Repr

namespace Double

def zero (negative : Bool) : Double := .finite negative 0 (-1074)

def scaledQuotient (numerator denominator : Nat) (exponent : Int) : Nat × Nat :=
  if 0 ≤ exponent then (numerator * twoTo exponent.toNat, denominator)
  else (numerator, denominator * twoTo (-exponent).toNat)

def exponentOf (numerator denominator : Nat) : Int :=
  let guess : Int := numerator.log2 - denominator.log2
  let (n, d) := scaledQuotient numerator denominator (-guess)
  max (-1074) (if d ≤ n then guess - 52 else guess - 53)

def ofQuotient (negative : Bool) (numerator denominator : Nat) : Double :=
  if numerator = 0 then zero negative
  else
    let e := exponentOf numerator denominator
    let (n, d) := scaledQuotient numerator denominator (-e)
    let q := roundQuotient n d
    let (q, e) := if q = twoTo 53 then (twoTo 52, e + 1) else (q, e)
    if 971 < e then .infinite negative else .finite negative q e

def ofNat (n : Nat) : Double := ofQuotient false n 1

def ofScaled (negative : Bool) (significand : Nat) (exponent : Int) : Double :=
  let (n, d) := scaledQuotient significand 1 exponent
  ofQuotient negative n d

/-- The binary64 value nearest to `significand * 10 ^ exponent`. Quotients far beyond the range are
decided by their number of digits. -/
def ofDecimal (negative : Bool) (significand : Nat) (exponent : Int) : Double :=
  let size : Int := (Nat.toDigits 10 significand).length + exponent
  if significand = 0 ∨ size < -330 then zero negative
  else if 310 < size then .infinite negative
  else if 0 ≤ exponent then ofQuotient negative (significand * tenTo exponent.toNat) 1
  else ofQuotient negative significand (tenTo (-exponent).toNat)

def neg : Double → Double
  | .finite s m e => .finite (!s) m e
  | .infinite s => .infinite !s
  | .nan => .nan

def signed (negative : Bool) (m : Nat) : Int := if negative then -m else m

def add : Double → Double → Double
  | .nan, _ => .nan
  | _, .nan => .nan
  | .infinite s, .infinite t => if s = t then .infinite s else .nan
  | .infinite s, .finite .. => .infinite s
  | .finite .., .infinite t => .infinite t
  | .finite s m e, .finite t n f =>
    let low := min e f
    let sum := signed s (m * twoTo (e - low).toNat) + signed t (n * twoTo (f - low).toNat)
    if sum = 0 then zero (s && t) else ofScaled (sum < 0) sum.natAbs low

def mul : Double → Double → Double
  | .nan, _ => .nan
  | _, .nan => .nan
  | .infinite s, .infinite t => .infinite (s != t)
  | .infinite s, .finite t n _ => if n = 0 then .nan else .infinite (s != t)
  | .finite s m _, .infinite t => if m = 0 then .nan else .infinite (s != t)
  | .finite s m e, .finite t n f => ofScaled (s != t) (m * n) (e + f)

instance : Neg Double := ⟨neg⟩
instance : Add Double := ⟨add⟩
instance : Mul Double := ⟨mul⟩

def truncate? : Double → Option (Int × Bool)
  | .finite s m e =>
    let (n, d) := scaledQuotient m 1 e
    some (signed s (n / d), n % d != 0)
  | _ => none

def toInt? (x : Double) : Option Int :=
  match x.truncate? with
  | some (i, false) => some i
  | _ => none

def isPositive : Double → Bool
  | .finite s m _ => !s && m != 0
  | .infinite s => !s
  | .nan => false

/-- Equality of numbers: the two zeros are one number, and nothing equals a value that is none. -/
def equals : Double → Double → Bool
  | .finite s m e, .finite t n f => (m = 0 && n = 0) || (s == t && m == n && e == f)
  | .infinite s, .infinite t => s == t
  | _, _ => false

def toBits : Double → Nat
  | .nan => 0x7FF8000000000000
  | .infinite s => (if s then twoTo 63 else 0) + 0x7FF0000000000000
  | .finite s m e =>
    (if s then twoTo 63 else 0) +
      (if m < twoTo 52 then m else (e + 1075).toNat * twoTo 52 + (m - twoTo 52))

def ofBits (bits : Nat) : Double :=
  let s : Bool := bits / twoTo 63 % 2 = 1
  let biased : Nat := bits / twoTo 52 % twoTo 11
  let m : Nat := bits % twoTo 52
  if biased = 0x7FF then if m = 0 then .infinite s else .nan
  else if biased = 0 then .finite s m (-1074)
  else .finite s (m + twoTo 52) ((biased : Int) - 1075)

end Double
end MailRules.Number
