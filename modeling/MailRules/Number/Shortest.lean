import MailRules.Number.Double
import MailRules.Text.Digit
/-!
The shortest decimal text of a binary64 value: the fewest digits that read back as the value, and
among those the nearest to it.
-/
namespace MailRules.Number.Shortest
open MailRules.Text

/-- The reals that round to `significand * 2 ^ exponent`, over a common denominator. The ends belong
to the interval when the significand is even. -/
structure Interval where
  low : Nat
  value : Nat
  high : Nat
  denominator : Nat
  closed : Bool

/-- Below a power of two the neighbours lie half as far apart, except at the least exponent. -/
def Interval.ofFinite (significand : Nat) (exponent : Int) : Interval :=
  let below := if significand = twoTo 52 ∧ -1074 < exponent then 1 else 2
  let scale := fun n => Double.scaledQuotient n 1 (exponent - 2)
  ⟨(scale (4 * significand - below)).1, (scale (4 * significand)).1,
    (scale (4 * significand + 2)).1, (scale 1).2, significand % 2 = 0⟩

def Interval.holds (i : Interval) (point factor : Nat) : Bool :=
  if i.closed then i.low * factor ≤ point && point ≤ i.high * factor
  else i.low * factor < point && point < i.high * factor

def Interval.belowPower (i : Interval) (place : Int) : Bool :=
  let (n, d) := if 0 ≤ place then (i.value, i.denominator * tenTo place.toNat)
    else (i.value * tenTo (-place).toNat, i.denominator)
  n < d

def Interval.pointFrom (i : Interval) (place : Int) : Nat → Int
  | 0 => place
  | steps + 1 => if i.belowPower place then place else i.pointFrom (place + 1) steps

/-- The value lies in `[10 ^ (point - 1), 10 ^ point)`; binary digits give a first guess. -/
def Interval.point (i : Interval) : Int :=
  let binary : Int := i.value.log2 - i.denominator.log2
  i.pointFrom ((binary - 1) * 30103 / 100000 - 1) 6

/-- The decimal of `count` digits next to the value that reads back as it, if there is one. Of two
the nearer is taken, of two equally near the even one. -/
def Interval.decimal? (i : Interval) (point : Int) (count : Nat) : Option Nat :=
  let place := point - count
  let (factor, unit) := if 0 ≤ place then (1, i.denominator * tenTo place.toNat)
    else (tenTo (-place).toNat, i.denominator)
  let v := i.value * factor
  let d := v / unit
  let down := i.holds (d * unit) factor
  let up := i.holds ((d + 1) * unit) factor
  if down && up then
    let r := v % unit
    if 2 * r < unit ∨ (2 * r = unit ∧ d % 2 = 0) then some d else some (d + 1)
  else if down then some d
  else if up then some (d + 1)
  else none

def Interval.search (i : Interval) (point : Int) (count : Nat) : Nat → Nat × Nat
  | 0 => (0, count)
  | steps + 1 =>
    match i.decimal? point count with
    | some d => (d, count)
    | none => i.search point (count + 1) steps

def dropZeros (ds : List Char) : List Char := (ds.reverse.dropWhile (· = '0')).reverse

/-- The digits, without zeros at the end, and the place of the point before the first of them. -/
def digits (significand : Nat) (exponent : Int) : List Char × Int :=
  let i := Interval.ofFinite significand exponent
  let point := i.point
  let (d, count) := i.search point 1 17
  let ds := Nat.toDigits 10 d
  (dropZeros ds, point + (ds.length - count : Int))

/-- Digits with the point at `point`: positional while the first digit stands at most four places
after the point or the point at most sixteen digits after the first, otherwise with an exponent. -/
def layout (ds : List Char) (point : Int) : List Char :=
  if -4 < point ∧ point ≤ 0 then
    ['0', '.'] ++ List.replicate (-point).toNat '0' ++ ds
  else if 0 < point ∧ point ≤ 16 then
    let whole := ds.take point.toNat
    let fraction := ds.drop point.toNat
    whole ++ List.replicate (point.toNat - ds.length) '0' ++ ['.'] ++
      (if fraction.isEmpty then ['0'] else fraction)
  else
    let e := point - 1
    let fraction := ds.drop 1
    ds.take 1 ++ (if fraction.isEmpty then [] else '.' :: fraction) ++
      ['e', if e < 0 then '-' else '+'] ++ (zeroPadded 2 e.natAbs).toList

def text : Double → String
  | .nan => "NaN"
  | .infinite s => (if s then "-" else "") ++ "Infinity"
  | .finite s m e =>
    let body := if m = 0 then ['0', '.', '0'] else
      let (ds, point) := digits m e
      layout ds point
    String.ofList ((if s then ['-'] else []) ++ body)

end MailRules.Number.Shortest
