import MailRules.Document
import MailRules.Text.Encoding
/-!
Reading the switches of an account. A switch may be a truth value, a number that is 0 or 1, or one
of the usual words.
-/
namespace MailRules
open MailRules.Text MailRules.Yaml

inductive Flag
  | noTls
  | noSimpleLogin
  | noSaslPlain
  | noSaslExternal
  deriving DecidableEq, Repr

namespace Flag

def all : List Flag := [noTls, noSimpleLogin, noSaslPlain, noSaslExternal]

def key : Flag → String
  | noTls => "notls"
  | noSimpleLogin => "nosimplelogin"
  | noSaslPlain => "nosaslplain"
  | noSaslExternal => "nosaslexternal"

def name : Flag → String
  | noTls => "no_tls"
  | noSimpleLogin => "no_simple_login"
  | noSaslPlain => "no_sasl_plain"
  | noSaslExternal => "no_sasl_external"

inductive Problem
  /-- The value is of a kind that has no truth value. -/
  | notBoolean
  /-- The value is of a right kind, but is none of the words and numbers. -/
  | unknown
  deriving DecidableEq, Repr

def Problem.message : Problem → String
  | .notBoolean => "Input should be a valid boolean"
  | .unknown => "Input should be a valid boolean, unable to interpret input"

def offWords : List String := ["0", "off", "f", "false", "n", "no"]
def onWords : List String := ["1", "on", "t", "true", "y", "yes"]

def ofWord (cs : List Char) : Except Problem Bool :=
  let word := String.ofList (cs.map Char.toLower)
  if offWords.contains word then .ok false
  else if onWords.contains word then .ok true
  else .error .unknown

def ofInt (i : Int) : Except Problem Bool :=
  if i = 0 then .ok false
  else if i = 1 then .ok true
  else if -0x8000000000000000 ≤ i ∧ i < 0x8000000000000000 then .error .unknown
  else .error .notBoolean

def ofDatum : Datum → Except Problem Bool
  | .bool b => .ok b
  | .text s => ofWord s.toList
  | .bytes octets =>
    match utf8Chars octets with
    | .ok cs => ofWord cs
    | .error _ => .error .unknown
  | .int i => ofInt i
  | .float x =>
    match x.toInt? with
    | some i => ofInt i
    | none => .error .notBoolean
  | _ => .error .notBoolean

end Flag

namespace Flags

def set (f : Flags) (flag : Flag) (b : Bool) : Flags :=
  match flag with
  | .noTls => { f with noTls := b }
  | .noSimpleLogin => { f with noSimpleLogin := b }
  | .noSaslPlain => { f with noSaslPlain := b }
  | .noSaslExternal => { f with noSaslExternal := b }

def problems (given : List (Flag × Datum)) : List (Flag × Flag.Problem) :=
  Flag.all.filterMap fun flag =>
    match (given.lookup flag).map Flag.ofDatum with
    | some (.error p) => some (flag, p)
    | _ => none

def read (given : List (Flag × Datum)) : Except (List (Flag × Flag.Problem)) Flags :=
  match problems given with
  | [] => .ok (given.foldl (fun f g => f.set g.1 ((Flag.ofDatum g.2).toOption.getD false)) {})
  | ps => .error ps

end Flags
end MailRules
