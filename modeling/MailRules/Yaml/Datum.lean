import MailRules.Calendar.Moment
/-!
The values that YAML nodes stand for.
-/
namespace MailRules.Yaml
open MailRules.Calendar MailRules.Number

inductive Datum
  | null
  | bool (b : Bool)
  | int (i : Int)
  | float (x : Double)
  | text (s : String)
  | bytes (octets : List Nat)
  | date (d : Date)
  | moment (m : Moment)
  | list (items : List Datum)
  | tuple (items : List Datum)
  /-- The entries in the order in which their keys were first met. -/
  | map (entries : List (Datum × Datum))
  | set (items : List Datum)

namespace Datum

def isKey : Datum → Bool
  | list _ | map _ | set _ => false
  | _ => true

def integer? : Datum → Option Int
  | bool b => some (if b then 1 else 0)
  | int i => some i
  | float x => x.toInt?
  | _ => none

/-- Equality of keys. Numbers are equal across their kinds, moments when they are the same instant,
and the value that is not a number equals none. -/
def sameKey (a b : Datum) : Bool :=
  match a, b with
  | null, null => true
  | text s, text t => s == t
  | bytes s, bytes t => s == t
  | date d, date e => d == e
  | moment m, moment n => m.same n
  | float x, float y => x.equals y
  | _, _ =>
    match a.integer?, b.integer? with
    | some i, some j => i == j
    | _, _ => false

def isNan : Datum → Bool
  | float .nan => true
  | _ => false

end Datum
end MailRules.Yaml
